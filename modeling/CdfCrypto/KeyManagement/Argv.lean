import CdfCrypto.KeyManagement.Exec

/-!
# What the children are given

A command is one line of text, the path of the client in front. The child cuts the line at its
spaces, and hands the pieces to `execv`. The words a command is meant to have (`Command.words`) hold
no space, so they come out as they went in; the path is cut like everything else. The path `Init`
keeps comes from `realpath`: any C string, so all that is known of it here is that it holds no NUL.
-/

namespace CdfCrypto.KeyManagement

open Lib

/-! ## The words that are meant -/

def KeyFlag.word : KeyFlag → Bytes
  | exportable => ascii "exportable=true"
  | deletionAllowed => ascii "deletion_allowed=true"

/-- The words of a command, after the path. -/
def Command.words : Command → List Bytes
  | list => [ascii "list", ascii "-format=json", ascii "transit/keys"]
  | read d k => [ascii "read", ascii "-format=json", ascii "transit/keys/" ++ keyName d k]
  | create d k => [ascii "write", ascii "-f", ascii "transit/keys/" ++ keyName d k]
  | config d k flags =>
    ascii "write" :: (ascii "transit/keys/" ++ (keyName d k ++ ascii "/config")) ::
      flags.map KeyFlag.word
  | delete d k => [ascii "delete", ascii "transit/keys/" ++ keyName d k]
  | exportKey d k =>
    [ascii "read", ascii "transit/export/encryption-key/" ++ keyName d k, ascii "-format=json"]

/-- A line: words with a space before each. -/
def spaced (words : List Bytes) : Bytes := words.flatMap (32 :: ·)

@[simp] theorem spaced_nil : spaced [] = [] := rfl

@[simp] theorem spaced_cons (w : Bytes) (words : List Bytes) :
    spaced (w :: words) = 32 :: (w ++ spaced words) := rfl

theorem spaced_flags (flags : List KeyFlag) :
    flags.flatMap KeyFlag.text = spaced (flags.map KeyFlag.word) := by
  induction flags with
  | nil => rfl
  | cons flag flags ih =>
    rw [List.flatMap_cons, List.map_cons, spaced_cons, ih]
    cases flag <;> rfl

/-- The line the source builds is the path and the words that are meant. -/
theorem Command.text_eq (exePath : Bytes) (cmd : Command) :
    cmd.text exePath = exePath ++ spaced cmd.words := by
  cases cmd with
  | list => rfl
  | config d k flags =>
    simp only [text, words, spaced_cons, spaced_flags, List.append_assoc]
    rfl
  | read d k =>
    simp only [text, words, spaced_cons, spaced_nil, List.append_assoc, List.append_nil]
    rfl
  | create d k =>
    simp only [text, words, spaced_cons, spaced_nil, List.append_assoc, List.append_nil]
    rfl
  | delete d k =>
    simp only [text, words, spaced_cons, spaced_nil, List.append_assoc, List.append_nil]
    rfl
  | exportKey d k =>
    simp only [text, words, spaced_cons, spaced_nil, List.append_assoc, List.append_nil]
    rfl

/-- Text without a space or a NUL. -/
def Solid (w : Bytes) : Prop := ∀ b ∈ w, b ≠ 32 ∧ b ≠ 0

instance (w : Bytes) : Decidable (Solid w) :=
  inferInstanceAs (Decidable (∀ b ∈ w, b ≠ 32 ∧ b ≠ 0))

def Word (w : Bytes) : Prop := w ≠ [] ∧ Solid w

instance (w : Bytes) : Decidable (Word w) := inferInstanceAs (Decidable (w ≠ [] ∧ Solid w))

theorem Solid.append {v w : Bytes} (hv : Solid v) (hw : Solid w) : Solid (v ++ w) := by
  intro b hb
  obtain hb | hb := List.mem_append.mp hb
  · exact hv b hb
  · exact hw b hb

theorem Word.append {v w : Bytes} (hv : Word v) (hw : Solid w) : Word (v ++ w) :=
  ⟨List.append_ne_nil_of_left_ne_nil hv.1 w, hv.2.append hw⟩

theorem solid_keyName (d k : Nat) : Solid (keyName d k) := by
  have hnumeral : ∀ n, Solid (decimal n) := by
    intro n b hb
    obtain ⟨hspace, hzero⟩ := isDigit_spec b (isDigit_of_mem_decimal hb)
    refine ⟨fun heq => ?_, hzero⟩
    rw [heq] at hspace
    exact absurd hspace (by decide)
  have hCDF : Solid (ascii "CDF") := by decide +kernel
  have hKey : Solid (ascii "_Key") := by decide +kernel
  exact hCDF.append ((hnumeral d).append (hKey.append (hnumeral k)))

theorem KeyFlag.word_spec (flag : KeyFlag) : Word flag.word := by
  cases flag <;> decide +kernel

/-- What is meant as a word is one. -/
theorem Command.words_spec (cmd : Command) : ∀ w ∈ cmd.words, Word w := by
  have hkeys : Word (ascii "transit/keys/") := by decide +kernel
  have hexport : Word (ascii "transit/export/encryption-key/") := by decide +kernel
  cases cmd with
  | list => decide +kernel
  | config d k flags =>
    have hconfig : Solid (ascii "/config") := by decide +kernel
    simp only [words, List.forall_mem_cons, List.forall_mem_map]
    exact ⟨by decide +kernel, hkeys.append ((solid_keyName d k).append hconfig),
      fun flag _ => flag.word_spec⟩
  | read d k =>
    simp only [words, List.forall_mem_cons]
    exact ⟨by decide +kernel, by decide +kernel, hkeys.append (solid_keyName d k), nofun⟩
  | create d k =>
    simp only [words, List.forall_mem_cons]
    exact ⟨by decide +kernel, by decide +kernel, hkeys.append (solid_keyName d k), nofun⟩
  | delete d k =>
    simp only [words, List.forall_mem_cons]
    exact ⟨by decide +kernel, hkeys.append (solid_keyName d k), nofun⟩
  | exportKey d k =>
    simp only [words, List.forall_mem_cons]
    exact ⟨by decide +kernel, hexport.append (solid_keyName d k), by decide +kernel, nofun⟩

/-! ## Cutting the line -/

theorem split_spaced {w : Bytes} {words : List Bytes} (hw : 32 ∉ w)
    (hwords : ∀ v ∈ words, Word v) (hne : w ≠ [] ∨ words ≠ []) :
    split (w ++ spaced words) [32] = w :: words := by
  induction words generalizing w with
  | nil =>
    rw [spaced_nil, List.append_nil]
    exact split_of_not_mem hw (hne.resolve_right (absurd rfl))
  | cons v words ih =>
    obtain ⟨hv, hrest⟩ := List.forall_mem_cons.mp hwords
    -- the first word ends at the first space, and what follows is a line again
    rw [spaced_cons, split_append _ hw]
    exact congrArg _ (ih (fun hmem => (hv.2 _ hmem).1 rfl) hrest (.inl hv.1))

/-- A path with a space is cut at the first one. -/
theorem split_cut {w : Bytes} (hw : 32 ∈ w) (line : Bytes) :
    ∃ piece rest, 32 ∉ piece ∧ split (w ++ line) [32] = piece :: rest := by
  obtain ⟨piece, after, rfl, hpiece⟩ := List.eq_append_cons_of_mem hw
  refine ⟨piece, split (after ++ line) [32], hpiece, ?_⟩
  rw [List.append_assoc, List.cons_append, split_append _ hpiece]

/-- A line holds no NUL where the path holds none. -/
theorem cstr_line {exePath : Bytes} {words : List Bytes} (hpath : 0 ∉ exePath)
    (hwords : ∀ v ∈ words, Word v) : cstr (exePath ++ spaced words) = exePath ++ spaced words := by
  refine cstr_of_forall_ne fun b hb hzero => ?_
  subst hzero
  obtain hb | hb := List.mem_append.mp hb
  · exact hpath hb
  · obtain ⟨v, hv, hb⟩ := List.mem_flatMap.mp hb
    obtain heq | hb := List.mem_cons.mp hb
    · exact absurd heq (by decide)
    · exact ((hwords v hv).2 0 hb).2 rfl

theorem map_cstr_words {words : List Bytes} (h : ∀ v ∈ words, Word v) : words.map cstr = words := by
  refine (List.map_congr_left fun v hv => ?_).trans (List.map_id _)
  exact cstr_of_forall_ne fun b hb => ((h v hv).2 b hb).2

/-- **The pieces are the words** exactly where the path holds no space. -/
theorem map_cstr_split_iff {exePath : Bytes} {words : List Bytes} (hpath : 0 ∉ exePath)
    (hwords : ∀ v ∈ words, Word v) (hne : words ≠ []) :
    (split (exePath ++ spaced words) [32]).map cstr = exePath :: words ↔ 32 ∉ exePath := by
  constructor
  · intro heq hspace
    obtain ⟨piece, rest, hpiece, hsplit⟩ := split_cut hspace (spaced words)
    rw [hsplit, List.map_cons] at heq
    -- the first piece would be the path, and it holds no space
    rw [← (List.cons.inj heq).1] at hspace
    exact hpiece ((List.takeWhile_subset _) hspace)
  · intro hspace
    have hcstr : cstr exePath = exePath :=
      cstr_of_forall_ne fun b hb hzero => hpath (hzero ▸ hb)
    rw [split_spaced hspace hwords (.inr hne), List.map_cons, hcstr, map_cstr_words hwords]

namespace Exec

/-! ## The children -/

/-- `MakeLoginVec` -/
def makeLoginVec (exePath : Bytes) : List Bytes := split (exePath ++ ascii " login -") [32]

/-- `ExtractStrPtr`: the strings as `execv` reads them. -/
def extractStrPtr (strs : List Bytes) : List Bytes := strs.map cstr

/-- The child of `ForkAndRunLogin`; 0, 1 and 2 are the standard descriptors. -/
def loginChild (exePath : Bytes) (pipefdIn pipefdOut : PipeTy) (args : List Bytes) : Sys Unit := do
  .perform (SysCall.close pipefdOut.1)
  .perform (SysCall.close pipefdIn.2)
  let out ← .perform (SysCall.dup2 pipefdOut.2 1)
  if ¬ out then .ret ()
  else do
    let err ← .perform (SysCall.dup2 pipefdOut.2 2)
    if ¬ err then .ret ()
    else do
      let inp ← .perform (SysCall.dup2 pipefdIn.1 0)
      if ¬ inp then .ret ()
      else do
        let _ ← .perform (SysCall.execv (cstr exePath) args)
        .ret ()

/-- The child of `ForkAndRunCommand`. -/
def commandChild (exePath : Bytes) (pipefdOut : PipeTy) (cmdArgs : Bytes) : Sys Unit := do
  .perform (SysCall.close pipefdOut.1)
  let out ← .perform (SysCall.dup2 pipefdOut.2 1)
  if ¬ out then .ret ()
  else do
    let err ← .perform (SysCall.dup2 pipefdOut.2 2)
    if ¬ err then .ret ()
    else do
      let _ ← .perform (SysCall.execv (cstr exePath) (extractStrPtr (split cmdArgs [32])))
      .ret ()

/-- The two children of `ExecOpenbaoCmd`. -/
inductive Child
  | login
  | command
  deriving DecidableEq, Repr

/-- What a child runs in `RunCommandAndGetResult`, which hands on its text as a C string. -/
def Child.program (exePath cmdArgs : Bytes) (loginPipefdIn loginPipefdOut cmdPipefd : PipeTy) :
    Child → Sys Unit
  | login => loginChild exePath loginPipefdIn loginPipefdOut (extractStrPtr (makeLoginVec exePath))
  | command => commandChild exePath cmdPipefd (cstr cmdArgs)

/-- The words a child is meant to run with, after the path. -/
def Child.words (cmd : Command) : Child → List Bytes
  | login => [ascii "login", ascii "-"]
  | command => cmd.words

/-! ## The argument vectors -/

/-- An `execv` has this path and these arguments. -/
def Execs (path : Bytes) (argv : List Bytes) : SysCall → Prop
  | .execv path' argv' => path' = path ∧ argv' = argv
  | _ => True

theorem loginChild_execs (exePath : Bytes) (pin pout : PipeTy) (args : List Bytes) :
    Calls (Execs (cstr exePath) args) (loginChild exePath pin pout args) := by
  refine ⟨trivial, fun _ => ⟨trivial, fun _ => ⟨trivial, fun out => ?_⟩⟩⟩
  cases out with
  | false => trivial
  | true =>
    refine ⟨trivial, fun err => ?_⟩
    cases err with
    | false => trivial
    | true =>
      refine ⟨trivial, fun inp => ?_⟩
      cases inp with
      | false => trivial
      | true => exact ⟨⟨rfl, rfl⟩, fun _ => trivial⟩

theorem commandChild_execs (exePath : Bytes) (pout : PipeTy) (cmdArgs : Bytes) :
    Calls (Execs (cstr exePath) (extractStrPtr (split cmdArgs [32])))
      (commandChild exePath pout cmdArgs) := by
  refine ⟨trivial, fun _ => ⟨trivial, fun out => ?_⟩⟩
  cases out with
  | false => trivial
  | true =>
    refine ⟨trivial, fun err => ?_⟩
    cases err with
    | false => trivial
    | true => exact ⟨⟨rfl, rfl⟩, fun _ => trivial⟩

/-- The command is reached where no descriptor is refused. -/
theorem commandChild_runs (exePath : Bytes) (pout : PipeTy) (cmdArgs : Bytes) :
    ∃ tr, Traces (commandChild exePath pout cmdArgs) tr (.ret ()) ∧
      (⟨.execv (cstr exePath) (extractStrPtr (split cmdArgs [32])), true⟩ : SysEvent) ∈ tr := by
  refine ⟨[⟨.close pout.1, ()⟩, ⟨.dup2 pout.2 1, true⟩, ⟨.dup2 pout.2 2, true⟩,
    ⟨.execv (cstr exePath) (extractStrPtr (split cmdArgs [32])), true⟩], ?_, ?_⟩
  · iterate 4 refine .call ?_
    exact .ret ()
  · exact .tail _ (.tail _ (.tail _ (.head _)))

/-- The pieces of its line are what a child runs with. -/
theorem Child.execs {exePath : Bytes} (hpath : 0 ∉ exePath) (cmd : Command) (pin pout pcmd : PipeTy)
    (child : Child) :
    Calls (Execs (cstr exePath) ((split (exePath ++ spaced (child.words cmd)) [32]).map cstr))
      (child.program exePath (cmd.text exePath) pin pout pcmd) := by
  cases child with
  | login => exact loginChild_execs exePath pin pout _
  | command =>
    -- the line goes through a `char *`, which its own bytes survive
    show Calls _ (commandChild exePath pcmd (cstr (cmd.text exePath)))
    rw [Command.text_eq, cstr_line hpath cmd.words_spec]
    exact commandChild_execs exePath pcmd _

theorem Child.words_spec (cmd : Command) (child : Child) : ∀ w ∈ child.words cmd, Word w := by
  cases child with
  | login =>
    show ∀ w ∈ [ascii "login", ascii "-"], Word w
    decide +kernel
  | command => exact cmd.words_spec

/-- **When the arguments are those that are meant**: of either child, for every command and every
path that is a C string, where the path holds no space and there only. -/
theorem child_argv {exePath : Bytes} (hpath : 0 ∉ exePath) (cmd : Command)
    (pin pout pcmd : PipeTy) (child : Child) :
    wp (child.program exePath (cmd.text exePath) pin pout pcmd) fun tr _ =>
      ∀ path argv answer, (⟨.execv path argv, answer⟩ : SysEvent) ∈ tr →
        (argv = exePath :: child.words cmd ↔ 32 ∉ exePath) := by
  refine wp_mono (child.execs hpath cmd pin pout pcmd).trace fun tr _ hexecs path argv answer hev => ?_
  obtain ⟨-, rfl⟩ := hexecs _ hev
  refine map_cstr_split_iff hpath (child.words_spec cmd) ?_
  cases child with
  | login => exact List.cons_ne_nil _ _
  | command => cases cmd <;> exact List.cons_ne_nil _ _

/-- A listing by a client without a space in its path. -/
theorem child_argv_bao :
    ∃ tr argv, Traces (Child.command.program (ascii "/bin/bao")
        (Command.list.text (ascii "/bin/bao")) (3, 4) (5, 6) (7, 8)) tr (.ret ()) ∧
      (⟨.execv (ascii "/bin/bao") argv, true⟩ : SysEvent) ∈ tr ∧
      argv = [ascii "/bin/bao", ascii "list", ascii "-format=json", ascii "transit/keys"] := by
  obtain ⟨tr, htraces, hmem⟩ := commandChild_runs (ascii "/bin/bao") (7, 8)
    (cstr (Command.list.text (ascii "/bin/bao")))
  have hpath : 0 ∉ ascii "/bin/bao" := by decide
  have hargv := wp_iff.mp (child_argv hpath .list (3, 4) (5, 6) (7, 8) .command) _ _ htraces
  exact ⟨tr, _, htraces, hmem, (hargv _ _ _ hmem).mpr (by decide)⟩

/-- A path with a space is not one argument. -/
theorem spaced_path_cut :
    ∃ tr argv, Traces (Child.command.program (ascii "/opt/my tools/bao")
        (Command.list.text (ascii "/opt/my tools/bao")) (3, 4) (5, 6) (7, 8)) tr (.ret ()) ∧
      (⟨.execv (ascii "/opt/my tools/bao") argv, true⟩ : SysEvent) ∈ tr ∧
      argv = [ascii "/opt/my", ascii "tools/bao", ascii "list", ascii "-format=json",
        ascii "transit/keys"] ∧
      argv ≠ ascii "/opt/my tools/bao" :: Child.command.words .list := by
  obtain ⟨tr, htraces, hmem⟩ := commandChild_runs (ascii "/opt/my tools/bao") (7, 8)
    (cstr (Command.list.text (ascii "/opt/my tools/bao")))
  have hargv : extractStrPtr (split (cstr (Command.list.text (ascii "/opt/my tools/bao"))) [32]) =
      [ascii "/opt/my", ascii "tools/bao", ascii "list", ascii "-format=json",
        ascii "transit/keys"] := by
    -- the line is also that of a shorter path and one word more
    have hline : cstr (Command.list.text (ascii "/opt/my tools/bao")) =
        ascii "/opt/my" ++ spaced (ascii "tools/bao" :: Command.list.words) := by decide
    have hword : Word (ascii "tools/bao") := by decide +kernel
    rw [hline]
    have hwords := List.forall_mem_cons.mpr ⟨hword, Command.words_spec .list⟩
    exact (map_cstr_split_iff (by decide) hwords (List.cons_ne_nil _ _)).mpr (by decide)
  refine ⟨tr, _, htraces, hmem, hargv, fun heq => ?_⟩
  rw [hargv] at heq
  exact absurd (congrArg List.length heq) (by decide)

end Exec

end CdfCrypto.KeyManagement
