import CdfCrypto.Cryption.Hash

/-!
# The hash of a stream

`ReadStep` is all that is asked of a `std::istream`: it may give blocks of any size, and fail or go
bad with any of them; it says that it is at its end only there, and a block without a byte is a
failure. `Reading` is what the loop knows of the stream and the hash together, and a digest is
given only where nothing of the stream is left (`hashStream_verdict`), and there where OpenSSL and
the heap answer well (`hashStream_answers`).
-/

namespace CdfCrypto.Cryption

open Lib

/-- A stream: the bytes it is still to deliver, and its state. -/
structure Stream where
  rest : Bytes
  state : IoState := {}

/-- What `read` promises of the block it gives. A stream that goes bad promises nothing. -/
structure ReadStep (w : Stream) (n : Nat) (block : Bytes) (w' : Stream) : Prop where
  size : block.length ≤ n
  delivered : w'.state.bad = false → block ++ w'.rest = w.rest
  bad_kept : w.state.bad = true → w'.state.bad = true
  closed : w.state.good = false → block = []
  stuck : block = [] → w'.state.fail = true
  ended : w.state.good = true → w'.state.eof = true → w'.state.bad = false → w'.rest = []

/-- What one call does to the stream: only reading does anything. -/
def Stream.Call (w : Stream) : (e : HashCall) → e.Reply → Stream → Prop
  | .rdstate, state, w' => state = w.state ∧ w' = w
  | .read n, some block, w' => ReadStep w n block w'
  | .read _, none, _ => True
  | _, _, w' => w' = w

/-- The stream as the environment of a program. -/
def Stream.Step (w : Stream) (ev : Event HashCall HashCall.Reply) (w' : Stream) : Prop :=
  w.Call ev.1 ev.2 w'

variable {D : Digest}

/-- A computation that does not use the stream. -/
theorem offStream_yields {α : Type} {p : Hashing α} {P : α → Prop} {w : Stream}
    (h : Total HashCall.OffStream p P) : Yields Stream.Step p w fun a w' => P a ∧ w' = w := by
  refine h.yields fun e r w' he hstep => ?_
  cases e with
  | rdstate => exact he.elim
  | read n => exact he.elim
  | _ => exact hstep

/-! ## The loop -/

/-- What the loop knows: the bytes that are taken and those still to come make up the stream, and
after a first byte the end of the stream is where it says so. -/
structure Reading (x taken : Bytes) (hash : Hash D) (w : Stream) : Prop where
  holds : hash.Holds taken
  whole : w.state.bad = false → taken ++ w.rest = x
  atEnd : taken ≠ [] → w.state.eof = true → w.state.bad = false → w.rest = []

/-- Bits that are not set after a reading were not set before. -/
theorem ReadStep.not_bad {w w' : Stream} {n : Nat} {block : Bytes} (h : ReadStep w n block w')
    (hbad : w'.state.bad = false) : w.state.bad = false := by
  rw [Bool.eq_false_iff]
  intro hset
  rw [h.bad_kept hset] at hbad
  cases hbad

/-- A stream that can be read and is not good is at its end. -/
theorem IoState.eof_of_fail {state : IoState} (hfail : state.fail = false)
    (hgood : state.good = false) : state.eof = true := by
  obtain ⟨eof, failbit, bad⟩ := state
  cases eof with
  | true => rfl
  | false =>
    cases failbit <;> cases bad
    · exact absurd hgood (by decide)
    all_goals exact absurd hfail (by decide)

/-- **One block.** -/
theorem Reading.step {x taken block : Bytes} {hash hash' : Hash D} {w w' : Stream} {n : Nat}
    (h : Reading x taken hash w) (hfail : w.state.fail = false) (hread : ReadStep w n block w')
    (hhash : hash'.Holds (taken ++ block)) : Reading x (taken ++ block) hash' w' := by
  refine ⟨hhash, fun hbad => ?_, fun hne heof hbad => ?_⟩
  · rw [List.append_assoc, hread.delivered hbad]
    exact h.whole (hread.not_bad hbad)
  · cases hgood : w.state.good with
    | true => exact hread.ended hgood heof hbad
    | false =>
      -- nothing comes of a stream that was at its end before
      have hblock := hread.closed hgood
      have hrest := hread.delivered hbad
      rw [hblock, List.append_nil] at hne
      rw [hblock, List.nil_append] at hrest
      rw [hrest]
      exact h.atEnd hne (IoState.eof_of_fail hfail hgood) (hread.not_bad hbad)

/-- What the loop leaves where it comes to the end of the stream. -/
def LoopLeaves (x : Bytes) : LoopEnd D → Stream → Prop
  | .ended hash hasInput, w => w.state.fail = true ∧
      ∃ taken, Reading x taken hash w ∧ (hasInput = true ↔ taken ≠ [])
  | .refused, _ => True
  | .threw, _ => True

/-- The rounds are enough: one for a stream that has failed, else one for each byte, one for the
block that is none and one to see it. -/
def Enough (fuel : Nat) (w : Stream) : Prop :=
  (w.state.fail = true ∧ 0 < fuel) ∨ w.rest.length + 2 ≤ fuel

theorem Enough.step {fuel n : Nat} {w w' : Stream} {block : Bytes} (h : Enough (fuel + 1) w)
    (hfail : w.state.fail = false) (hread : ReadStep w n block w') : Enough fuel w' := by
  have hfuel : w.rest.length + 2 ≤ fuel + 1 := by
    rcases h with ⟨h, -⟩ | h
    · rw [hfail] at h
      cases h
    · exact h
  cases hfail' : w'.state.fail with
  | true => exact .inl ⟨hfail', by omega⟩
  | false =>
    have hbad : w'.state.bad = false := (Bool.or_eq_false_iff.mp hfail').2
    have hne : block ≠ [] := by
      intro heq
      rw [hread.stuck heq] at hfail'
      cases hfail'
    have hlength := congrArg List.length (hread.delivered hbad)
    have hpos := List.length_pos_iff.mpr hne
    rw [List.length_append] at hlength
    exact .inr (by omega)

/-- **The loop ends**, and knows what it has read. -/
theorem hashStreamLoop_yields {x : Bytes} : ∀ (fuel : Nat) (hash : Hash D) (hasInput : Bool)
    (taken : Bytes) (w : Stream), Reading x taken hash w → (hasInput = true ↔ taken ≠ []) →
    Enough fuel w → Yields Stream.Step (hashStreamLoop fuel hash hasInput) w (LoopLeaves x) := by
  intro fuel
  induction fuel with
  | zero =>
    intro hash hasInput taken w _ _ hfuel
    rcases hfuel with ⟨-, h⟩ | h
    · exact absurd h (Nat.lt_irrefl 0)
    · omega
  | succ fuel ih =>
    intro hash hasInput taken w hreading hinput hfuel
    unfold hashStreamLoop
    refine Yields.perform_bind fun state _ hstate => ?_
    obtain ⟨rfl, rfl⟩ := hstate
    split
    next hfail => exact Yields.ret ⟨hfail, taken, hreading, hinput⟩
    next hfail =>
    have hfail := Bool.eq_false_iff.mpr hfail
    refine Yields.perform_bind fun block w' hread => ?_
    cases block with
    | none => exact Yields.ret trivial
    | some block =>
      have hfuel' := hfuel.step hfail hread
      dsimp only
      split
      next hblock =>
        have hsame : taken ++ block = taken := by rw [hblock, List.append_nil]
        have hholds : hash.Holds (taken ++ block) := by
          rw [hsame]
          exact hreading.holds
        have hreading' := hreading.step hfail hread hholds
        rw [hsame] at hreading'
        exact ih hash hasInput taken w' hreading' hinput hfuel'
      next hblock =>
        refine (offStream_yields (Hash.update_total hreading.holds block)).bind
          fun ret w'' hret => ?_
        obtain ⟨hret, rfl⟩ := hret
        split
        · exact Yields.ret trivial
        next hok =>
        obtain ⟨-, hholds⟩ := hret (Bool.not_eq_false _ ▸ hok)
        refine ih ret.2 true _ w'' (hreading.step hfail hread hholds) ?_ hfuel'
        exact iff_of_true rfl (List.append_ne_nil_of_right_ne_nil _ hblock)

/-! ## The verdict -/

/-- `d` is what `Update` and `Finalize` make of a text: they can succeed, and give nothing else
where they do. -/
def Produces (H : HashHost) (algorithm : HashAlgorithm) (x d : Bytes) : Prop :=
  ∀ output, (∃ tr, Traces (hashText H algorithm x output) tr (.ret (true, output ++ d))) ∧
    ∀ tr output', Traces (hashText H algorithm x output) tr (.ret (true, output')) →
      output' = output ++ d

/-- An environment in which all goes well. -/
def allWell : (e : HashCall) → e.Reply
  | .rdstate => {}
  | .read _ => none
  | .evpMdFetch _ => true
  | .evpMdCtxNew => true
  | .evpDigestInit => true
  | .evpDigestUpdate _ => true
  | .malloc _ => true
  | .evpDigestFinal => some []

theorem hashText_allWell {H : HashHost} {algorithm : HashAlgorithm}
    (hname : getEvpDigestName algorithm ≠ none) {x : Bytes} (hx : x ≠ []) (output : Bytes) :
    (hashText H algorithm x output).eval allWell =
      .ret (true, output ++ (H.digest algorithm).of x) := by
  obtain ⟨digestName, hname⟩ := Option.ne_none_iff_exists'.mp hname
  have hnew : (Hash.new H algorithm).eval allWell =
      .ret ⟨(H.digest algorithm).size, true, .running (H.digest algorithm).init, none⟩ := by
    unfold Hash.new
    rw [hname]
    rfl
  unfold hashText
  rw [eval_bind hnew]
  unfold Hash.update
  rw [if_neg (by simp), if_neg hx]
  rfl

/-- A hash of one text gives its digest or fails. -/
theorem hashText_total (H : HashHost) (algorithm : HashAlgorithm) (x output : Bytes) :
    Total HashCall.OffStream (hashText H algorithm x output) fun ret =>
      ret.1 = true → ret.2 = output ++ (H.digest algorithm).of x := by
  unfold hashText
  refine (Hash.new_total H algorithm).bind fun hash hnew => ?_
  cases hinited : hash.inited with
  | false =>
    unfold Hash.update
    rw [if_pos hinited]
    exact Total.ret fun h => by cases h
  | true =>
    refine (Hash.update_total (hnew hinited).2 x).bind fun ret hret => ?_
    split
    · exact Total.ret fun h => by cases h
    next hok =>
    obtain ⟨hx, hholds⟩ := hret (Bool.not_eq_false _ ▸ hok)
    refine (Hash.finalize_total hholds hx output).bind fun ret hret => Total.ret fun hok => ?_
    rw [hret, if_pos hok, List.nil_append]

/-- The digest of a text is what `Update` and `Finalize` make of it. -/
theorem produces_of {H : HashHost} {algorithm : HashAlgorithm}
    (hname : getEvpDigestName algorithm ≠ none) {x : Bytes} (hx : x ≠ []) :
    Produces H algorithm x ((H.digest algorithm).of x) := by
  intro output
  refine ⟨⟨_, traces_of_eval (hashText_allWell hname hx output)⟩, fun tr output' htr => ?_⟩
  obtain ⟨⟨ret, heq, hret⟩, -⟩ := wp_iff.mp (hashText_total H algorithm x output).trace tr _ htr
  obtain rfl := Outcome.ret.inj heq
  exact hret rfl

/-- What a call may come back with. -/
structure Verdict (H : HashHost) (algorithm : HashAlgorithm) (x output : Bytes)
    (result : Option Bool × Bytes) (w' : Stream) : Prop where
  read : result.1 = some true → x ≠ [] ∧ w'.rest = [] ∧ w'.state.eof = true ∧ w'.state.bad = false
  named : result.1 = some true → getEvpDigestName algorithm ≠ none
  extended : result.1 = some true → result.2 = output ++ (H.digest algorithm).of x
  unchanged : result.1 ≠ some true → result.2 = output

theorem Verdict.refused {H : HashHost} {algorithm : HashAlgorithm} {x output : Bytes}
    {answer : Option Bool} (hne : answer ≠ some true) (w' : Stream) :
    Verdict H algorithm x output (answer, output) w' :=
  ⟨fun h => absurd h hne, fun h => absurd h hne, fun h => absurd h hne, fun _ => rfl⟩

/-- A stream that has stopped and has neither gone bad nor failed short of its end is at its end. -/
theorem Reading.done {x taken : Bytes} {hash : Hash D} {w : Stream} (h : Reading x taken hash w)
    (hne : taken ≠ []) (hfail : w.state.fail = true)
    (hok : ¬ (w.state.bad || (w.state.fail && !w.state.eof)) = true) :
    taken = x ∧ w.rest = [] ∧ w.state.eof = true ∧ w.state.bad = false := by
  rw [hfail, Bool.true_and, Bool.or_eq_true, not_or, Bool.not_eq_true, Bool.not_eq_true,
    Bool.not_eq_false'] at hok
  obtain ⟨hbad, heof⟩ := hok
  have hrest := h.atEnd hne heof hbad
  have hwhole := h.whole hbad
  rw [hrest, List.append_nil] at hwhole
  exact ⟨hwhole, hrest, heof, hbad⟩

/-- **However the stream gives its bytes and however it stops, the call comes back.** -/
theorem hashStream_verdict (H : HashHost) (algorithm : HashAlgorithm) (output : Bytes) (w : Stream)
    {fuel : Nat} (hfuel : w.rest.length + 2 ≤ fuel) :
    Yields Stream.Step (hashStream H fuel algorithm output) w
      (Verdict H algorithm w.rest output) := by
  unfold hashStream
  refine (offStream_yields (Hash.new_total H algorithm)).bind fun hash w₁ hnew => ?_
  obtain ⟨hnew, rfl⟩ := hnew
  split
  · exact Yields.ret (.refused (by decide) w₁)
  next hsize =>
  have hinited : hash.inited = true := by
    cases hinited : hash.inited with
    | true => rfl
    | false => exact absurd (if_neg (by rw [hinited]; decide)) hsize
  obtain ⟨hname, hholds⟩ := hnew hinited
  have hstart : Reading w₁.rest [] hash w₁ := ⟨hholds, fun _ => rfl, fun hne => absurd rfl hne⟩
  refine (hashStreamLoop_yields fuel hash false [] w₁ hstart (by decide) (.inr hfuel)).bind
    fun loopEnd w₂ hloop => ?_
  cases loopEnd with
  | threw => exact Yields.ret (.refused (by decide) w₂)
  | refused => exact Yields.ret (.refused (by decide) w₂)
  | ended hash hasInput =>
    obtain ⟨hfail, taken, hreading, hinput⟩ := hloop
    refine Yields.perform_bind fun state w₃ hstate => ?_
    obtain ⟨rfl, rfl⟩ := hstate
    split
    · exact Yields.ret (.refused (by decide) w₃)
    next hok =>
    split
    · exact Yields.ret (.refused (by decide) w₃)
    next hhas =>
    have hne : taken ≠ [] := hinput.mp (Bool.not_eq_false _ ▸ hhas)
    obtain ⟨rfl, hread⟩ := hreading.done hne hfail hok
    refine (offStream_yields (Hash.finalize_total hreading.holds hne output)).bind
      fun ret w₄ hret => ?_
    obtain ⟨hret, rfl⟩ := hret
    refine Yields.ret ⟨fun _ => ⟨hne, hread⟩, fun _ => hname, fun hdone => ?_, fun hdone => ?_⟩
    · rw [if_pos (Option.some.inj hdone)] at hret
      exact hret
    · rw [if_neg (fun h => hdone (congrArg some h))] at hret
      exact hret

/-! ## Where all answers well -/

/-- An answer of OpenSSL or the heap that is not a failure, or of a stream that does not throw. -/
def HashCall.Well : (e : HashCall) → e.Reply → Prop
  | .rdstate, _ => True
  | .read _, block => block ≠ none
  | .evpDigestFinal, written => written ≠ none
  | .evpMdFetch _, ok => ok = true
  | .evpMdCtxNew, ok => ok = true
  | .evpDigestInit, ok => ok = true
  | .evpDigestUpdate _, ok => ok = true
  | .malloc _, ok => ok = true

/-- The stream, with nothing that fails but the stream. -/
def Stream.WellStep (w : Stream) (ev : Event HashCall HashCall.Reply) (w' : Stream) : Prop :=
  w.Step ev w' ∧ ev.1.Well ev.2

/-- A digest of OpenSSL runs. -/
structure Goes (hash : Hash D) : Prop where
  inited : hash.inited = true
  openssl : hash.blake3Hasher = none
  running : ∃ c, hash.context = .running c

theorem new_goes {H : HashHost} {algorithm : HashAlgorithm}
    (hname : getEvpDigestName algorithm ≠ none) (w : Stream) :
    Yields Stream.WellStep (Hash.new H algorithm) w fun hash w' =>
      w' = w ∧ Goes hash ∧ hash.digestSize = (H.digest algorithm).size := by
  obtain ⟨digestName, hname⟩ := Option.ne_none_iff_exists'.mp hname
  unfold Hash.new
  rw [hname]
  refine Yields.perform_bind fun md w₁ hmd => ?_
  obtain ⟨rfl, rfl⟩ := hmd
  refine Yields.perform_bind fun context w₂ hcontext => ?_
  obtain ⟨rfl, rfl⟩ := hcontext
  refine Yields.perform_bind fun res w₃ hres => ?_
  obtain ⟨rfl, rfl⟩ := hres
  exact Yields.ret ⟨rfl, ⟨rfl, rfl, _, rfl⟩, rfl⟩

theorem update_goes {hash : Hash D} {input : Bytes} (h : Goes hash) (hinput : input ≠ [])
    (w : Stream) : Yields Stream.WellStep (hash.update input) w fun ret w' =>
      w' = w ∧ ret.1 = true ∧ Goes ret.2 := by
  obtain ⟨hinited, hopenssl, c, hcontext⟩ := h
  unfold Hash.update
  rw [if_neg (by rw [hinited]; decide), if_neg hinput, hopenssl, hcontext]
  refine Yields.perform_bind fun ret w' hret => ?_
  obtain ⟨rfl, rfl⟩ := hret
  exact Yields.ret ⟨rfl, rfl, hinited, rfl, _, rfl⟩

theorem finalize_goes {hash : Hash D} (h : Goes hash) (output : Bytes) (w : Stream) :
    Yields Stream.WellStep (hash.finalize output) w fun ret _ => ret.1.1 = true := by
  obtain ⟨hinited, hopenssl, c, hcontext⟩ := h
  unfold Hash.finalize
  rw [if_neg (by rw [hinited]; decide), hopenssl, hcontext]
  refine Yields.perform_bind fun outputArray w' harray => ?_
  obtain ⟨-, rfl⟩ := harray
  refine Yields.perform_bind fun ret w'' hret => ?_
  cases ret with
  | none => exact absurd rfl hret.2
  | some written => exact Yields.ret rfl

/-- Where the loop comes to its end at all, it is that of the stream. -/
theorem hashStreamLoop_goes : ∀ (fuel : Nat) (hash : Hash D) (hasInput : Bool) (w : Stream),
    Goes hash → wpIn Stream.WellStep (hashStreamLoop fuel hash hasInput) w fun _ o _ =>
      ∀ loopEnd, o = .ret loopEnd → ∃ hash' hasInput', loopEnd = .ended hash' hasInput' ∧
        Goes hash' := by
  intro fuel
  induction fuel with
  | zero => exact fun _ _ _ _ _ heq => by cases heq
  | succ fuel ih =>
    intro hash hasInput w hgoes
    unfold hashStreamLoop
    refine wpIn_perform_bind.mpr fun state w₁ _ => ?_
    split
    · exact fun _ heq => ⟨hash, hasInput, (Outcome.ret.inj heq).symm, hgoes⟩
    refine wpIn_perform_bind.mpr fun block w₂ hblock => ?_
    cases block with
    | none => exact absurd rfl hblock.2
    | some block =>
      dsimp only
      split
      · exact ih hash hasInput w₂ hgoes
      next hne =>
        refine wpIn_bind_of (update_goes hgoes hne w₂) (fun tr ret w₃ hret => ?_)
          fun tr x w₃ hx => ?_
        · obtain ⟨ret', heq, rfl, hok, hgoes'⟩ := hret
          obtain rfl := Outcome.ret.inj heq
          rw [if_neg (by rw [hok]; decide)]
          exact ih ret.2 true w₃ hgoes'
        · obtain ⟨ret', heq, -⟩ := hx
          cases heq

/-- **The answer is `true`** where a stream that holds something was read to its end without an
error, and nothing else fails. -/
theorem hashStream_answers (H : HashHost) {algorithm : HashAlgorithm} (output : Bytes) (w : Stream)
    {fuel : Nat} (hfuel : w.rest.length + 2 ≤ fuel) (hname : getEvpDigestName algorithm ≠ none)
    (hsize : (H.digest algorithm).size ≠ 0) (hrest : w.rest ≠ []) :
    Yields Stream.WellStep (hashStream H fuel algorithm output) w fun result w' =>
      w'.rest = [] → w'.state.eof = true → w'.state.bad = false → result.1 = some true := by
  have hwell : ∀ w ev w', Stream.WellStep w ev w' → Stream.Step w ev w' := fun _ _ _ h => h.1
  unfold hashStream
  have hnew := (offStream_yields (w := w) (Hash.new_total H algorithm)).mono_env hwell
  refine (hnew.and (new_goes hname w)).bind fun hash w₁ hhash => ?_
  obtain ⟨⟨hheld, rfl⟩, -, hgoes, hdigest⟩ := hhash
  have hdigestSize : hash.getDigestSize ≠ 0 := by
    unfold Hash.getDigestSize
    rw [if_pos hgoes.inited, hdigest]
    exact hsize
  rw [if_neg hdigestSize]
  have hstart : Reading w₁.rest [] hash w₁ :=
    ⟨(hheld hgoes.inited).2, fun _ => rfl, fun hne => absurd rfl hne⟩
  have hloop := (hashStreamLoop_yields fuel hash false [] w₁ hstart (by decide)
    (.inr hfuel)).mono_env hwell
  refine Yields.bind (hloop.and_of (hashStreamLoop_goes fuel hash false w₁ hgoes))
    fun loopEnd w₂ hend => ?_
  obtain ⟨hleaves, hash', hasInput, rfl, hgoes'⟩ := hend
  obtain ⟨hfail, taken, hreading, hinput⟩ := hleaves
  refine Yields.perform_bind fun state w₃ hstate => ?_
  obtain ⟨⟨rfl, rfl⟩, -⟩ := hstate
  show Yields _ (if _ then _ else _) _ _
  split
  next herror =>
    refine Yields.ret fun _ heof hbad => ?_
    rw [hbad, heof, Bool.not_true, Bool.and_false] at herror
    cases herror
  split
  next hnothing =>
    refine Yields.ret fun hread _ hbad => absurd ?_ hrest
    have hnone : taken = [] := by
      by_contra hne
      rw [hinput.mpr hne] at hnothing
      cases hnothing
    have hwhole := hreading.whole hbad
    rw [hnone, hread] at hwhole
    exact hwhole.symm
  · refine (finalize_goes hgoes' output _).bind fun ret w₄ hok => Yields.ret fun _ _ _ => ?_
    exact congrArg some hok

/-- **The hash of a stream is that of its text.** The answer is `true` only where every byte is
read without an error and there was one, with the digest that the text as one has; else the output
is as it was. Where that is so and OpenSSL and the heap answer well, it is `true`. -/
theorem hashStream_yields (H : HashHost) (algorithm : HashAlgorithm) (output : Bytes) (w : Stream)
    {fuel : Nat} (hfuel : w.rest.length + 2 ≤ fuel) :
    (Yields Stream.Step (hashStream H fuel algorithm output) w fun result w' =>
      Verdict H algorithm w.rest output result w' ∧ (result.1 = some true →
        Produces H algorithm w.rest ((H.digest algorithm).of w.rest))) ∧
    (getEvpDigestName algorithm ≠ none → (H.digest algorithm).size ≠ 0 → w.rest ≠ [] →
      Yields Stream.WellStep (hashStream H fuel algorithm output) w fun result w' =>
        w'.rest = [] → w'.state.eof = true → w'.state.bad = false → result.1 = some true) :=
  ⟨(hashStream_verdict H algorithm output w hfuel).mono fun _ _ hverdict =>
    ⟨hverdict, fun hdone => produces_of (hverdict.named hdone) (hverdict.read hdone).1⟩,
   hashStream_answers H output w hfuel⟩

/-- A digest that gives back what it takes in. -/
def plainDigest (size : Nat) : Digest where
  Ctx := Bytes
  size := size
  init := []
  update c x := c ++ x
  final c := c.take size ++ List.replicate (size - c.length) 0
  update_append c a b := List.append_assoc c a b
  final_length c := by
    rw [List.length_append, List.length_take, List.length_replicate]
    omega

def plainHost : HashHost where
  digest _ := plainDigest 32
  blake3Enabled := true
  blake3_size := rfl

theorem hashStream_yields_sample :
    (Yields Stream.Step (hashStream plainHost 4 .sha256 []) ⟨ascii "ab", {}⟩ fun result w' =>
      Verdict plainHost .sha256 (ascii "ab") [] result w' ∧ (result.1 = some true →
        Produces plainHost .sha256 (ascii "ab") ((plainDigest 32).of (ascii "ab")))) ∧
    Yields Stream.WellStep (hashStream plainHost 4 .sha256 []) ⟨ascii "ab", {}⟩ fun result w' =>
      w'.rest = [] → w'.state.eof = true → w'.state.bad = false → result.1 = some true := by
  obtain ⟨hverdict, hanswers⟩ := hashStream_yields plainHost .sha256 [] ⟨ascii "ab", {}⟩
    (show 2 + 2 ≤ 4 by decide)
  exact ⟨hverdict, hanswers (by decide) (by decide) (by decide)⟩

/-- What `Sha256Stream` gives, `Sha256` can give of the text. -/
theorem sha256Stream_yields (H : HashHost) (output : Bytes) (w : Stream) {fuel : Nat}
    (hfuel : w.rest.length + 2 ≤ fuel) :
    Yields Stream.Step (sha256Stream H fuel output) w fun result _ => result.1 = some true →
      ∃ tr, Traces (sha256 H w.rest output) tr (.ret (true, result.2)) := by
  refine (hashStream_verdict H .sha256 output w hfuel).mono fun result _ hverdict hdone => ?_
  have hne := (hverdict.read hdone).1
  unfold sha256
  rw [if_neg hne, hverdict.extended hdone]
  exact ⟨_, traces_of_eval (hashText_allWell (hverdict.named hdone) hne output)⟩

end CdfCrypto.Cryption
