import CdfCrypto.Cryption.HashStream

/-!
# A hash over its life

`Reset`, `Update` and `Finalize` may come in any order, and each may fail. What a hash stands for
is the text of its `Update`s that succeeded since the last `Reset` (`absorbed`). A digest of OpenSSL
that was started there is good for one `Finalize`, and for none once an `EVP_DigestUpdate` has
failed; until then, and always with the BLAKE3 of the build, a `Finalize` that succeeds appends the
digest of that text (`finalize_of_run`). What comes after it, OpenSSL says.
-/

namespace CdfCrypto.Cryption

open Lib

inductive HashOp
  | reset
  | update (input : Bytes)
  | finalize (output : Bytes)

variable {D : Digest}

/-- One operation: whether it succeeded, and the output of a `Finalize`. -/
def HashOp.prog (hash : Hash D) : HashOp → Hashing ((Bool × Bytes) × Hash D)
  | reset => do
    let ret ← hash.reset
    .ret ((ret.1, []), ret.2)
  | update input => do
    let ret ← hash.update input
    .ret ((ret.1, []), ret.2)
  | finalize output => hash.finalize output

/-- One operation that returned. -/
structure HashReturn where
  op : HashOp
  trace : List (Event HashCall HashCall.Reply)
  ok : Bool
  output : Bytes

def HashStep (hash : Hash D) (l : HashReturn) (hash' : Hash D) : Prop :=
  Traces (l.op.prog hash) l.trace (.ret ((l.ok, l.output), hash'))

/-- The text after one operation. -/
def HashReturn.absorb (taken : Bytes) (l : HashReturn) : Bytes :=
  match l.op with
  | .reset => []
  | .update input => if l.ok then taken ++ input else taken
  | .finalize _ => taken

/-- The text of the operations. -/
def absorbed (ls : List HashReturn) : Bytes := ls.foldl HashReturn.absorb []

@[simp] theorem absorbed_snoc (ls : List HashReturn) (l : HashReturn) :
    absorbed (ls ++ [l]) = l.absorb (absorbed ls) := by
  unfold absorbed
  rw [List.foldl_append]
  rfl

/-- A call after which no digest runs in a context of OpenSSL. -/
def HashCall.Spends : (e : HashCall) → e.Reply → Prop
  | .evpDigestInit, res => res = false
  | .evpDigestUpdate _, ret => ret = false
  | .evpDigestFinal, _ => True
  | _, _ => False

/-- There is none in a trace. -/
def Unspent (tr : List (Event HashCall HashCall.Reply)) : Prop := ∀ ev ∈ tr, ¬ ev.1.Spends ev.2

/-- Whether that is so after one operation of all since the last `Reset`, and of this itself. -/
def HashReturn.keeps (intact : Prop) (l : HashReturn) : Prop :=
  match l.op with
  | .reset => Unspent l.trace
  | .update _ => intact ∧ Unspent l.trace
  | .finalize _ => intact ∧ Unspent l.trace

/-- The last `EVP_DigestInit_ex`, of a `Reset` or of the constructor whose calls are `made`, has
succeeded, and since then no `EVP_DigestUpdate` has failed and no `EVP_DigestFinal_ex` was
called. -/
def Intact (made : List (Event HashCall HashCall.Reply)) (ls : List HashReturn) : Prop :=
  ls.foldl HashReturn.keeps (Unspent made)

@[simp] theorem intact_snoc (made : List (Event HashCall HashCall.Reply)) (ls : List HashReturn)
    (l : HashReturn) : Intact made (ls ++ [l]) = l.keeps (Intact made ls) := by
  unfold Intact
  rw [List.foldl_append]
  rfl

/-- The digest of a text, which may be empty. -/
def Digest.ofText (D : Digest) (x : Bytes) : Bytes := if x = [] then D.final D.init else D.of x

namespace Hash

variable {hash : Hash D} {taken : Bytes}

theorem Holds.final (h : Holds hash taken) {c : D.Ctx} (hc : hash.running = some c) :
    D.final c = D.ofText taken := by
  unfold Digest.ofText
  rcases h.running c hc with ⟨rfl, rfl⟩ | ⟨hne, rfl⟩
  · exact (if_pos rfl).symm
  · exact (if_neg hne).symm

/-! ## One operation -/

/-- What an `Update` or a `Finalize` makes of a hash that is initialised, by its calls: what it held
it holds with what it took in, if nothing was spent, and the BLAKE3 of the build spends nothing. -/
structure Went (hash : Hash D) (tr : List (Event HashCall HashCall.Reply)) (more : Bytes)
    (hash' : Hash D) : Prop where
  inited : hash'.inited = true
  kind : hash'.blake3Hasher = none ↔ hash.blake3Hasher = none
  unspent : hash.blake3Hasher ≠ none → Unspent tr
  holds : ∀ taken, Unspent tr → Holds hash taken → Holds hash' (taken ++ more)

/-- Nothing was done. -/
theorem went_refused (hinited : hash.inited = true) (hopenssl : hash.blake3Hasher = none)
    (tr : List (Event HashCall HashCall.Reply)) : Went hash tr [] hash where
  inited := hinited
  kind := Iff.rfl
  unspent := fun hblake => absurd hopenssl hblake
  holds := fun taken _ h => by rwa [List.append_nil]

/-- Nothing was even asked. -/
theorem went_nothing (hinited : hash.inited = true) : Went hash [] [] hash where
  inited := hinited
  kind := Iff.rfl
  unspent := fun _ => List.forall_mem_nil _
  holds := fun taken _ h => by rwa [List.append_nil]

/-- The context of OpenSSL was spent. -/
theorem went_spent {hash' : Hash D} {tr : List (Event HashCall HashCall.Reply)} (more : Bytes)
    (hinited : hash'.inited = true) (hopenssl : hash.blake3Hasher = none)
    (hopenssl' : hash'.blake3Hasher = none) (hspent : ¬ Unspent tr) : Went hash tr more hash' where
  inited := hinited
  kind := iff_of_true hopenssl' hopenssl
  unspent := fun hblake => absurd hopenssl hblake
  holds := fun _ hunspent _ => absurd hunspent hspent

theorem update_went (hinited : hash.inited = true) (input : Bytes) :
    wp (hash.update input) fun tr o => ∃ ret, o = .ret ret ∧
      Went hash tr (if ret.1 then input else []) ret.2 := by
  unfold update
  rw [if_neg (by rw [hinited]; decide)]
  split
  · exact ⟨_, rfl, went_nothing hinited⟩
  next hinput =>
  split
  next c hblake =>
    refine ⟨_, rfl, hinited, ?_, fun _ => List.forall_mem_nil _, fun taken _ h => ?_⟩
    · rw [hblake]
      exact iff_of_false (Option.some_ne_none _) (Option.some_ne_none _)
    · have hrun : hash.running = some c := by rw [running, hblake]
      have hne : taken ++ input ≠ [] := List.append_ne_nil_of_right_ne_nil _ hinput
      exact holds_blake3 hinited rfl (.inr ⟨hne, h.update hrun input⟩)
  next hblake =>
    cases hcontext : hash.context with
    | unset =>
      refine ⟨_, rfl, ?_⟩
      rw [← hcontext]
      exact went_refused hinited hblake []
    | running c =>
      refine wp_perform_bind.mpr fun ret => ⟨_, rfl, ?_⟩
      cases ret with
      | false =>
        refine went_spent [] hinited hblake hblake fun hunspent => ?_
        exact hunspent _ List.mem_cons_self rfl
      | true =>
        refine ⟨hinited, Iff.rfl, fun h => absurd hblake h, fun taken _ h => ?_⟩
        have hrun : hash.running = some c := by rw [running, hblake, hcontext]; rfl
        have hne : taken ++ input ≠ [] := List.append_ne_nil_of_right_ne_nil _ hinput
        exact holds_running hinited hblake rfl (.inr ⟨hne, h.update hrun input⟩)
    | stale =>
      refine wp_perform_bind.mpr fun ret => ⟨_, rfl, hinited, Iff.rfl, fun h => absurd hblake h, ?_⟩
      exact fun taken _ h => absurd ⟨hblake, hcontext⟩ h.fresh

/-- What a `Finalize` appends: nothing where it fails, and the digest of what the hash holds. -/
def Appends (hash : Hash D) (output : Bytes) (ok : Bool) (output' : Bytes) : Prop :=
  ∃ digest, output' = output ++ digest ∧ (ok = false → digest = []) ∧
    ∀ taken, ok = true → Holds hash taken → digest = D.ofText taken

theorem appends_nothing (hash : Hash D) (output : Bytes) : Appends hash output false output :=
  ⟨[], (List.append_nil _).symm, fun _ => rfl, fun _ hok => by cases hok⟩

theorem appends_digest {digest : Bytes} (output : Bytes)
    (h : ∀ taken, Holds hash taken → digest = D.ofText taken) :
    Appends hash output true (output ++ digest) :=
  ⟨digest, rfl, fun hfalse => (by cases hfalse), fun taken _ => h taken⟩

theorem finalize_went (hinited : hash.inited = true) (output : Bytes) :
    wp (hash.finalize output) fun tr o => ∃ ret, o = .ret ret ∧ Went hash tr [] ret.2 ∧
      Appends hash output ret.1.1 ret.1.2 := by
  have hspent : ∀ (tr : List (Event HashCall HashCall.Reply)) (ret : Option Bytes),
      ¬ Unspent (tr ++ [⟨.evpDigestFinal, ret⟩]) := fun tr ret hunspent =>
    hunspent _ (List.mem_append_right _ List.mem_cons_self) trivial
  unfold finalize
  rw [if_neg (by rw [hinited]; decide)]
  split
  next c hblake =>
    have hrun : hash.running = some c := by rw [running, hblake]
    exact ⟨_, rfl, went_nothing hinited, appends_digest output fun taken h => h.final hrun⟩
  next hblake =>
    refine wp_perform_bind.mpr fun outputArray => ?_
    split
    · exact ⟨_, rfl, went_refused hinited hblake _, appends_nothing hash output⟩
    cases hcontext : hash.context with
    | unset =>
      refine ⟨_, rfl, ?_, appends_nothing hash output⟩
      rw [← hcontext]
      exact went_refused hinited hblake _
    | running c =>
      refine wp_perform_bind.mpr fun ret => ?_
      have hrun : hash.running = some c := by rw [running, hblake, hcontext]; rfl
      cases ret with
      | none =>
        exact ⟨_, rfl, went_spent [] hinited hblake hblake (hspent [_] none),
          appends_nothing hash output⟩
      | some written =>
        exact ⟨_, rfl, went_spent [] hinited hblake hblake (hspent [_] (some written)),
          appends_digest output fun taken h => h.final hrun⟩
    | stale =>
      refine wp_perform_bind.mpr fun ret => ?_
      cases ret with
      | none =>
        exact ⟨_, rfl, went_spent [] hinited hblake hblake (hspent [_] none),
          appends_nothing hash output⟩
      | some written =>
        exact ⟨_, rfl, went_spent [] hinited hblake hblake (hspent [_] (some written)),
          appends_digest output fun taken h => absurd ⟨hblake, hcontext⟩ h.fresh⟩

/-! ## Runs -/

variable {made : List (Event HashCall HashCall.Reply)}

/-- What is known of a hash that is initialised, by how it was made and its past. -/
structure Told (made : List (Event HashCall HashCall.Reply)) (first : Hash D)
    (past : List HashReturn) (hash : Hash D) : Prop where
  kind : hash.blake3Hasher = none ↔ first.blake3Hasher = none
  holds : first.blake3Hasher ≠ none ∨ Intact made past → Holds hash (absorbed past)

/-- An `Update` or a `Finalize` goes on from what is known. -/
theorem Told.went {first hash' : Hash D} {past : List HashReturn} {l : HashReturn} {more : Bytes}
    (h : Told made first past hash) (hwent : Went hash l.trace more hash')
    (habsorb : l.absorb (absorbed past) = absorbed past ++ more)
    (hkeeps : l.keeps (Intact made past) ↔ Intact made past ∧ Unspent l.trace) :
    Told made first (past ++ [l]) hash' := by
  refine ⟨hwent.kind.trans h.kind, fun hintact => ?_⟩
  rw [absorbed_snoc, habsorb]
  rcases hintact with hblake | hintact
  · have hblake' : hash.blake3Hasher ≠ none := fun hnone => hblake (h.kind.mp hnone)
    exact hwent.holds _ (hwent.unspent hblake') (h.holds (.inl hblake))
  · rw [intact_snoc] at hintact
    obtain ⟨hpast, hunspent⟩ := hkeeps.mp hintact
    exact hwent.holds _ hunspent (h.holds (.inr hpast))

/-- **One operation** of a hash that is initialised. -/
theorem Told.snoc {first hash' : Hash D} {past : List HashReturn} {l : HashReturn}
    (h : Told made first past hash) (hinited : hash.inited = true)
    (hstep : HashStep hash l hash') : hash'.inited = true ∧ Told made first (past ++ [l]) hash' ∧
      ∀ output, l.op = .finalize output → Appends hash output l.ok l.output := by
  obtain ⟨op, trace, ok, output⟩ := l
  cases op with
  | reset =>
    have hreset : Total HashCall.OffStream (HashOp.prog hash .reset) fun ret =>
        Holds ret.2 [] ∧ (ret.2.blake3Hasher = none ↔ hash.blake3Hasher = none) :=
      (reset_total hash hinited).bind fun ret hret => Total.ret hret
    obtain ⟨⟨ret, heq, hholds, hkind⟩, -⟩ := wp_iff.mp hreset.trace _ _ hstep
    obtain rfl := Outcome.ret.inj heq
    refine ⟨hholds.inited, ⟨hkind.trans h.kind, fun _ => ?_⟩, fun _ hop => by cases hop⟩
    rw [absorbed_snoc]
    exact hholds
  | update input =>
    have hupdate : wp (HashOp.prog hash (.update input)) fun tr o => ∃ ret, o = .ret ret ∧
        Went hash tr (if ret.1.1 then input else []) ret.2 := by
      refine (wp_bind_ret fun _ => rfl).mpr (wp_mono (update_went hinited input) fun tr o ho => ?_)
      obtain ⟨ret, rfl, hret⟩ := ho
      exact ⟨_, rfl, hret⟩
    obtain ⟨ret, heq, hwent⟩ := wp_iff.mp hupdate _ _ hstep
    obtain rfl := Outcome.ret.inj heq
    refine ⟨hwent.inited, h.went hwent ?_ Iff.rfl, fun _ hop => by cases hop⟩
    cases ok with
    | true => rfl
    | false => exact (List.append_nil _).symm
  | finalize output' =>
    obtain ⟨ret, heq, hwent, happends⟩ := wp_iff.mp (finalize_went hinited output') _ _ hstep
    obtain rfl := Outcome.ret.inj heq
    refine ⟨hwent.inited, h.went hwent (List.append_nil _).symm Iff.rfl, fun output'' hop => ?_⟩
    obtain rfl := HashOp.finalize.inj hop
    exact happends

/-- A hash that is not initialised does nothing. -/
theorem step_uninited {hash' : Hash D} {l : HashReturn} (h : hash.inited = false)
    (hstep : HashStep hash l hash') : l.ok = false ∧ hash' = hash ∧
      ∀ output, l.op = .finalize output → l.output = output := by
  obtain ⟨op, trace, ok, output⟩ := l
  have hvalue : ∀ {p : Hashing ((Bool × Bytes) × Hash D)} {a : (Bool × Bytes) × Hash D},
      Traces p trace (.ret ((ok, output), hash')) → p = .ret a → a = ((ok, output), hash') := by
    intro p a htr hp
    rw [hp] at htr
    cases htr
    rfl
  cases op with
  | reset =>
    have hnothing : hash.reset = .ret (false, hash) := if_pos h
    have hprog : HashOp.prog hash .reset = .ret ((false, []), hash) := by
      show hash.reset >>= _ = _
      rw [hnothing]
      rfl
    cases hvalue hstep hprog
    exact ⟨rfl, rfl, fun _ hop => by cases hop⟩
  | update input =>
    have hnothing : hash.update input = .ret (false, hash) := if_pos h
    have hprog : HashOp.prog hash (.update input) = .ret ((false, []), hash) := by
      show hash.update input >>= _ = _
      rw [hnothing]
      rfl
    cases hvalue hstep hprog
    exact ⟨rfl, rfl, fun _ hop => by cases hop⟩
  | finalize output' =>
    have hprog : HashOp.prog hash (.finalize output') = .ret ((false, output'), hash) := if_pos h
    cases hvalue hstep hprog
    exact ⟨rfl, rfl, fun _ hop => HashOp.finalize.inj hop⟩

/-- **The digests of a hash.** In every run of a new hash a `Finalize` appends nothing where it
fails. Where it succeeds it appends the digest of what the `Update`s that succeeded have taken in
since the last `Reset`, if the hash is the BLAKE3 of the build, or its digest of OpenSSL was started
then and has not been spent since. -/
theorem finalize_of_run {H : HashHost} {algorithm : HashAlgorithm}
    {made : List (Event HashCall HashCall.Reply)} {hash hash' : Hash (H.digest algorithm)}
    {past rest : List HashReturn} {l : HashReturn} {output : Bytes}
    (hnew : Traces (Hash.new H algorithm) made (.ret hash))
    (hrun : Run HashStep hash (past ++ l :: rest) hash') (hop : l.op = .finalize output) :
    ∃ digest, l.output = output ++ digest ∧ (l.ok = false → digest = []) ∧
      (l.ok = true → hash.blake3Hasher ≠ none ∨ Intact made past →
        digest = (H.digest algorithm).ofText (absorbed past)) := by
  have hfirst : hash.inited = false ∨ hash.inited = true ∧ Told made hash [] hash := by
    obtain ⟨⟨a, heq, ha⟩, -⟩ := wp_iff.mp (new_total H algorithm).trace _ _ hnew
    obtain rfl := Outcome.ret.inj heq
    cases hinited : hash.inited with
    | false => exact .inl rfl
    | true => exact .inr ⟨rfl, Iff.rfl, fun _ => (ha hinited).2⟩
  obtain ⟨before, hpast, hlast⟩ := Run.split past (l :: rest) hrun
  have htold : before.inited = false ∨ before.inited = true ∧ Told made hash past before := by
    refine hpast.history (K := fun past hash' => hash'.inited = false ∨
      hash'.inited = true ∧ Told made hash past hash') (fun past s l s' hk hstep => ?_) hfirst
    rcases hk with hnot | ⟨hinited, htold⟩
    · obtain ⟨-, rfl, -⟩ := step_uninited hnot hstep
      exact .inl hnot
    · obtain ⟨hinited', htold', -⟩ := htold.snoc hinited hstep
      exact .inr ⟨hinited', htold'⟩
  cases hlast with
  | cons hstep _ =>
    rcases htold with hnot | ⟨hinited, htold⟩
    · obtain ⟨hfailed, -, houtput⟩ := step_uninited hnot hstep
      refine ⟨[], (houtput output hop).trans (List.append_nil _).symm, fun _ => rfl, fun hok => ?_⟩
      cases hfailed.symm.trans hok
    · obtain ⟨-, -, happends⟩ := htold.snoc hinited hstep
      obtain ⟨digest, hextends, hnothing, hdigest⟩ := happends output hop
      exact ⟨digest, hextends, hnothing, fun hok hintact => hdigest _ hok (htold.holds hintact)⟩

/-- One operation, where nothing fails but what has to. -/
def wellReturn (hash : Hash D) (op : HashOp) (ok : Bool) (output : Bytes) : HashReturn where
  op
  trace := ((op.prog hash).runWith allWell).1
  ok
  output

/-- The hash after it. -/
def wellHash (hash : Hash D) (op : HashOp) : Hash D :=
  match (op.prog hash).eval allWell with
  | .ret r => r.2
  | .halt _ => hash

def sampleHash : Hash (plainHost.digest .sha256) :=
  { digestSize := 32, inited := true, context := .running [] }

def sampleMid : Hash (plainHost.digest .sha256) := wellHash sampleHash (.update (ascii "ab"))

def sampleStale : Hash (plainHost.digest .sha256) := wellHash sampleMid (.finalize [])

def sampleNext : Hash (plainHost.digest .sha256) := wellHash sampleStale .reset

def sampleFull : Hash (plainHost.digest .sha256) := wellHash sampleNext (.update (ascii "c"))

/-- A text whose digest is taken, and after a `Reset` another. -/
def samplePieces : List HashReturn := [
  wellReturn sampleHash (.update (ascii "ab")) true [],
  wellReturn sampleMid (.finalize []) true ((plainDigest 32).ofText (ascii "ab")),
  wellReturn sampleStale .reset true [],
  wellReturn sampleNext (.update (ascii "c")) true []]

/-- The digest of the other. -/
def sampleDigest : HashReturn :=
  wellReturn sampleFull (.finalize []) true ((plainDigest 32).ofText (ascii "c"))

theorem finalize_of_run_sample :
    sampleDigest.output = (plainHost.digest .sha256).ofText (absorbed samplePieces) := by
  have hnew : Traces (Hash.new plainHost .sha256)
      ((Hash.new plainHost .sha256).runWith allWell).1 (.ret sampleHash) := traces_of_eval rfl
  have hfirst : HashStep sampleHash samplePieces[0] sampleMid := traces_of_eval rfl
  have htaken : HashStep sampleMid samplePieces[1] sampleStale := traces_of_eval rfl
  have hreset : HashStep sampleStale samplePieces[2] sampleNext := traces_of_eval rfl
  have hthen : HashStep sampleNext samplePieces[3] sampleFull := traces_of_eval rfl
  have hlast : HashStep sampleFull sampleDigest (wellHash sampleFull (.finalize [])) :=
    traces_of_eval rfl
  have hrun : Run HashStep sampleHash (samplePieces ++ sampleDigest :: [])
      (wellHash sampleFull (.finalize [])) :=
    .cons hfirst (.cons htaken (.cons hreset (.cons hthen (.cons hlast (.nil _)))))
  have hstarted : Unspent samplePieces[2].trace :=
    List.forall_mem_singleton.mpr fun hspent => by cases hspent
  have htook : Unspent samplePieces[3].trace :=
    List.forall_mem_singleton.mpr fun hspent => by cases hspent
  have hintact : Intact ((Hash.new plainHost .sha256).runWith allWell).1 samplePieces :=
    ⟨hstarted, htook⟩
  obtain ⟨digest, hextends, -, hdigest⟩ := finalize_of_run hnew hrun rfl
  rw [hextends, List.nil_append]
  exact hdigest rfl (.inr hintact)

end Hash

end CdfCrypto.Cryption
