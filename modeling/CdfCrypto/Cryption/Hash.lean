import CdfCrypto.Lib.Prog
import CdfCrypto.Utils.Bytes

/-!
# Hashes

`Hash` runs a digest over the pieces of a text, either in a context of OpenSSL or, where that has
no BLAKE3 and the build does, in a hasher of its own. `HashStream` reads a stream block by block
into one.

The digest is a parameter, with the one law that makes a text of its pieces; what OpenSSL and the
stream answer is open, and so is what a context of OpenSSL is good for once its digest has been
taken. `Holds` says which bytes a hash has taken in, and each method has a lemma that says what it
does to them, whatever the answers are.
-/

namespace CdfCrypto.Cryption

open Lib

/-! ## Digests -/

/-- `unknown` stands for every value the enumeration does not name as well. -/
inductive HashAlgorithm
  | unknown
  | sha1
  | sha256
  | sha384
  | sha512
  | blake2
  | blake2s256
  | blake3
  | sm3
  deriving DecidableEq, Repr

/-- `GetEvpDigestName` -/
def getEvpDigestName : HashAlgorithm → Option Bytes
  | .sha1 => some (ascii "SHA1")
  | .sha256 => some (ascii "SHA2-256")
  | .sha384 => some (ascii "SHA2-384")
  | .sha512 => some (ascii "SHA2-512")
  | .blake2 => some (ascii "BLAKE2B-512")
  | .blake2s256 => some (ascii "BLAKE2S-256")
  | .blake3 => some (ascii "BLAKE3")
  | .sm3 => some (ascii "SM3")
  | .unknown => none

/-- A digest, over a context that takes in a text piece by piece. -/
structure Digest where
  Ctx : Type
  size : Nat
  init : Ctx
  update : Ctx → Bytes → Ctx
  final : Ctx → Bytes
  update_append : ∀ c a b, update (update c a) b = update c (a ++ b)
  final_length : ∀ c, (final c).length = size

/-- The digest of a text. -/
def Digest.of (D : Digest) (x : Bytes) : Bytes := D.final (D.update D.init x)

/-- The digests, and whether the build has `CDF_ENABLE_BLAKE3`. OpenSSL's BLAKE3 and that of the
build are the same digest. -/
structure HashHost where
  digest : HashAlgorithm → Digest
  blake3Enabled : Bool
  blake3_size : (digest .blake3).size = 32

/-! ## Calls -/

/-- `std::ios_base::iostate` -/
structure IoState where
  eof : Bool := false
  failbit : Bool := false
  bad : Bool := false
  deriving DecidableEq, Repr

/-- `fail()`: the stream is `false` as a condition. -/
def IoState.fail (s : IoState) : Bool := s.failbit || s.bad

def IoState.good (s : IoState) : Bool := !s.eof && !s.failbit && !s.bad

/-- What is asked of OpenSSL, the heap and the stream. -/
inductive HashCall
  | evpMdFetch (digestName : Bytes)
  | evpMdCtxNew
  | evpDigestInit
  | evpDigestUpdate (data : Bytes)
  | malloc (size : Nat)
  | evpDigestFinal
  | rdstate
  | read (n : Nat)

/-- A block that is read has `gcount()` bytes. A stream may be set to throw instead.
`EVP_DigestFinal_ex` fails or writes something. -/
abbrev HashCall.Reply : HashCall → Type
  | rdstate => IoState
  | read _ => Option Bytes
  | evpDigestFinal => Option Bytes
  | _ => Bool

/-- A loop that is not at its end. -/
inductive HashFault
  | diverges

abbrev Hashing (α : Type) := Prog HashCall HashCall.Reply HashFault α

/-! ## `Hash::Impl` -/

/-- `EVP_MD_CTX`: without a digest, with one that runs, or with one that is stale: it has been taken
with `EVP_DigestFinal_ex`, or a call has failed with it. -/
inductive EvpMdCtx (D : Digest)
  | unset
  | running (c : D.Ctx)
  | stale

structure Hash (D : Digest) where
  digestSize : Nat := 0
  inited : Bool := false
  context : EvpMdCtx D := .unset
  blake3Hasher : Option D.Ctx := none

variable {D : Digest}

/-- `EVP_DigestInit_ex` -/
def evpDigestInit (D : Digest) : Hashing (Bool × EvpMdCtx D) := do
  let res ← .perform HashCall.evpDigestInit
  .ret (res, if res then .running D.init else .unset)

/-- `EVP_DigestUpdate`. Where no digest was started there is nothing to update, and the call is taken
to fail. A stale context may take in more, or not: OpenSSL says. -/
def evpDigestUpdate (context : EvpMdCtx D) (data : Bytes) : Hashing (Bool × EvpMdCtx D) :=
  match context with
  | .unset => .ret (false, .unset)
  | .running c => do
    let ret ← .perform (HashCall.evpDigestUpdate data)
    .ret (ret, if ret then .running (D.update c data) else .stale)
  | .stale => do
    let ret ← .perform (HashCall.evpDigestUpdate data)
    .ret (ret, .stale)

/-- `EVP_DigestFinal_ex`. It writes the digest that runs; of a stale one it writes anything. -/
def evpDigestFinal (context : EvpMdCtx D) : Hashing (Option Bytes × EvpMdCtx D) :=
  match context with
  | .unset => .ret (none, .unset)
  | .running c => do
    let ret ← .perform HashCall.evpDigestFinal
    .ret (ret.map fun _ => D.final c, .stale)
  | .stale => do
    let ret ← .perform HashCall.evpDigestFinal
    .ret (ret, .stale)

namespace Hash

/-- `DigestSize` -/
def getDigestSize (hash : Hash D) : Nat := if hash.inited then hash.digestSize else 0

/-- `Reset` -/
def reset (hash : Hash D) : Hashing (Bool × Hash D) :=
  if hash.inited = false then .ret (false, hash)
  else
    match hash.blake3Hasher with
    | some _ => .ret (true, { hash with blake3Hasher := some D.init })
    | none => do
      let init ← Cryption.evpDigestInit D
      .ret (init.1, { hash with context := init.2 })

/-- The constructor. A `Reset` that fails leaves the hash initialised. -/
def new (H : HashHost) (algorithm : HashAlgorithm) : Hashing (Hash (H.digest algorithm)) :=
  match getEvpDigestName algorithm with
  | none => .ret {}
  | some digestName => do
    let md ← .perform (HashCall.evpMdFetch digestName)
    if md = false then
      if H.blake3Enabled = true ∧ algorithm = .blake3 then
        .ret { blake3Hasher := some (H.digest algorithm).init, digestSize := 32, inited := true }
      else .ret {}
    else do
      let context ← .perform HashCall.evpMdCtxNew
      if context = false then .ret {}
      else do
        let ret ← reset { digestSize := (H.digest algorithm).size, inited := true }
        .ret ret.2

/-- `Update` -/
def update (hash : Hash D) (input : Bytes) : Hashing (Bool × Hash D) :=
  if hash.inited = false then .ret (false, hash)
  else if input = [] then .ret (false, hash)
  else
    match hash.blake3Hasher with
    | some c => .ret (true, { hash with blake3Hasher := some (D.update c input) })
    | none => do
      let ret ← Cryption.evpDigestUpdate hash.context input
      .ret (ret.1, { hash with context := ret.2 })

/-- `Finalize`, with the output it extends. -/
def finalize (hash : Hash D) (output : Bytes) : Hashing ((Bool × Bytes) × Hash D) :=
  if hash.inited = false then .ret ((false, output), hash)
  else
    match hash.blake3Hasher with
    | some c => .ret ((true, output ++ D.final c), hash)
    | none => do
      let outputArray ← .perform (HashCall.malloc hash.digestSize)
      if outputArray = false then .ret ((false, output), hash)
      else do
        let ret ← Cryption.evpDigestFinal hash.context
        match ret.1 with
        | none => .ret ((false, output), { hash with context := ret.2 })
        | some digest => .ret ((true, output ++ digest),
            { hash with context := ret.2, digestSize := digest.length })

end Hash

/-! ## Streams and texts -/

/-- `HASH_STREAM_BUFFER_SIZE` -/
def hashStreamBufferSize : Nat := 64 * 1024

/-- How the loop is left: at the end of the stream, by an `Update` that fails, by an exception. -/
inductive LoopEnd (D : Digest)
  | ended (hash : Hash D) (hasInput : Bool)
  | refused
  | threw

/-- The loop of `HashStream`. -/
def hashStreamLoop : Nat → Hash D → Bool → Hashing (LoopEnd D)
  | 0, _, _ => .halt .diverges
  | fuel + 1, hash, hasInput => do
    let state ← .perform HashCall.rdstate
    if state.fail then .ret (.ended hash hasInput)
    else do
      let block ← .perform (HashCall.read hashStreamBufferSize)
      match block with
      | none => .ret .threw
      | some block =>
        if block = [] then hashStreamLoop fuel hash hasInput
        else do
          let ret ← hash.update block
          if ret.1 = false then .ret .refused
          else hashStreamLoop fuel ret.2 true

/-- `HashStream`, with the output it extends; there is no answer where the stream throws. -/
def hashStream (H : HashHost) (fuel : Nat) (algorithm : HashAlgorithm) (output : Bytes) :
    Hashing (Option Bool × Bytes) := do
  let hash ← Hash.new H algorithm
  if hash.getDigestSize = 0 then .ret (some false, output)
  else do
    let loopEnd ← hashStreamLoop fuel hash false
    match loopEnd with
    | .threw => .ret (none, output)
    | .refused => .ret (some false, output)
    | .ended hash hasInput => do
      let state ← .perform HashCall.rdstate
      if state.bad || (state.fail && !state.eof) then .ret (some false, output)
      else if hasInput = false then .ret (some false, output)
      else do
        let ret ← hash.finalize output
        .ret (some ret.1.1, ret.1.2)

/-- `Sha256Stream` -/
def sha256Stream (H : HashHost) (fuel : Nat) (output : Bytes) : Hashing (Option Bool × Bytes) :=
  hashStream H fuel .sha256 output

/-- A hash of one text: `Update` and `Finalize`. -/
def hashText (H : HashHost) (algorithm : HashAlgorithm) (input output : Bytes) :
    Hashing (Bool × Bytes) := do
  let hash ← Hash.new H algorithm
  let ret ← hash.update input
  if ret.1 = false then .ret (false, output)
  else do
    let ret ← ret.2.finalize output
    .ret ret.1

/-- `Sha256` -/
def sha256 (H : HashHost) (input output : Bytes) : Hashing (Bool × Bytes) :=
  if input = [] then .ret (false, output)
  else hashText H .sha256 input output

/-! ## What a hash has taken in -/

/-- The calls that leave the stream alone. -/
def HashCall.OffStream : HashCall → Prop
  | rdstate => False
  | read _ => False
  | _ => True

/-- The digest that runs in a context. -/
def EvpMdCtx.digest : EvpMdCtx D → Option D.Ctx
  | running c => some c
  | _ => none

namespace Hash

/-- The digest that runs, if one does. -/
def running (hash : Hash D) : Option D.Ctx :=
  match hash.blake3Hasher with
  | some c => some c
  | none => hash.context.digest

/-- A digest of OpenSSL that is stale. -/
def Stale (hash : Hash D) : Prop := hash.blake3Hasher = none ∧ hash.context = .stale

/-- The bytes a hash has taken in: its digest, if it has one, is the one over them. -/
structure Holds (hash : Hash D) (taken : Bytes) : Prop where
  inited : hash.inited = true
  fresh : ¬ hash.Stale
  running : ∀ c, hash.running = some c →
    (taken = [] ∧ c = D.init) ∨ (taken ≠ [] ∧ c = D.update D.init taken)

/-- A hash takes in a text behind what it has. -/
theorem Holds.update {hash : Hash D} {taken : Bytes} (h : Holds hash taken) {c : D.Ctx}
    (hc : hash.running = some c) (input : Bytes) :
    D.update c input = D.update D.init (taken ++ input) := by
  rcases h.running c hc with ⟨rfl, rfl⟩ | ⟨-, rfl⟩
  · rw [List.nil_append]
  · rw [D.update_append]

/-- The BLAKE3 of the build, over a text. -/
theorem holds_blake3 {hash : Hash D} {taken : Bytes} {c : D.Ctx} (hinited : hash.inited = true)
    (hblake : hash.blake3Hasher = some c)
    (hc : (taken = [] ∧ c = D.init) ∨ (taken ≠ [] ∧ c = D.update D.init taken)) :
    Holds hash taken := by
  refine ⟨hinited, fun hstale => ?_, fun c' hc' => ?_⟩
  · cases hblake.symm.trans hstale.1
  · unfold running at hc'
    rw [hblake] at hc'
    exact Option.some.inj hc' ▸ hc

/-- A context of OpenSSL in which a digest runs over a text. -/
theorem holds_running {hash : Hash D} {taken : Bytes} {c : D.Ctx} (hinited : hash.inited = true)
    (hblake : hash.blake3Hasher = none) (hcontext : hash.context = .running c)
    (hc : (taken = [] ∧ c = D.init) ∨ (taken ≠ [] ∧ c = D.update D.init taken)) :
    Holds hash taken := by
  refine ⟨hinited, fun hstale => ?_, fun c' hc' => ?_⟩
  · cases hcontext.symm.trans hstale.2
  · unfold running at hc'
    rw [hblake, hcontext] at hc'
    exact Option.some.inj hc' ▸ hc

/-- And one without a digest. -/
theorem holds_unset {hash : Hash D} (taken : Bytes) (hinited : hash.inited = true)
    (hblake : hash.blake3Hasher = none) (hcontext : hash.context = .unset) : Holds hash taken := by
  refine ⟨hinited, fun hstale => ?_, fun c' hc' => ?_⟩
  · cases hcontext.symm.trans hstale.2
  · unfold running at hc'
    rw [hblake, hcontext] at hc'
    cases hc'

theorem reset_total (hash : Hash D) (h : hash.inited = true) :
    Total HashCall.OffStream hash.reset fun ret =>
      Holds ret.2 [] ∧ (ret.2.blake3Hasher = none ↔ hash.blake3Hasher = none) := by
  unfold reset
  rw [if_neg (by rw [h]; decide)]
  split
  next c hblake =>
    refine Total.ret ⟨holds_blake3 h rfl (.inl ⟨rfl, rfl⟩), ?_⟩
    rw [hblake]
    exact iff_of_false (Option.some_ne_none _) (Option.some_ne_none _)
  next hblake =>
    unfold evpDigestInit
    refine Total.perform_bind trivial fun res => Total.ret ⟨?_, Iff.rfl⟩
    cases res with
    | false => exact holds_unset [] h hblake rfl
    | true => exact holds_running h hblake rfl (.inl ⟨rfl, rfl⟩)

/-- A hash that is initialised holds nothing yet, and its algorithm has a name. -/
theorem new_total (H : HashHost) (algorithm : HashAlgorithm) :
    Total HashCall.OffStream (new H algorithm) fun hash => hash.inited = true →
      getEvpDigestName algorithm ≠ none ∧ Holds hash [] := by
  unfold new
  split
  · exact Total.ret fun h => by cases h
  next digestName hname =>
    refine Total.perform_bind trivial fun md => ?_
    split
    · split
      · refine Total.ret fun h => ⟨Option.ne_none_iff_exists'.mpr ⟨_, hname⟩, ?_⟩
        exact holds_blake3 h rfl (.inl ⟨rfl, rfl⟩)
      · exact Total.ret fun h => by cases h
    · refine Total.perform_bind trivial fun context => ?_
      split
      · exact Total.ret fun h => by cases h
      · refine (reset_total _ rfl).bind fun ret hret => Total.ret fun _ => ⟨?_, hret.1⟩
        exact Option.ne_none_iff_exists'.mpr ⟨_, hname⟩

/-- What an `Update` that succeeds leaves. -/
theorem update_total {hash : Hash D} {taken : Bytes} (h : Holds hash taken) (input : Bytes) :
    Total HashCall.OffStream (hash.update input) fun ret =>
      ret.1 = true → input ≠ [] ∧ Holds ret.2 (taken ++ input) := by
  unfold update
  rw [if_neg (by rw [h.inited]; decide)]
  split
  · exact Total.ret fun hret => by cases hret
  next hinput =>
  have htaken : taken ++ input ≠ [] := List.append_ne_nil_of_right_ne_nil _ hinput
  split
  next c hblake =>
    have hrun : hash.running = some c := by rw [running, hblake]
    exact Total.ret fun _ => ⟨hinput, holds_blake3 h.inited rfl (.inr ⟨htaken, h.update hrun input⟩)⟩
  next hblake =>
    unfold evpDigestUpdate
    split
    · exact Total.ret fun hret => by cases hret
    next c hcontext =>
      have hrun : hash.running = some c := by rw [running, hblake, hcontext]; rfl
      refine Total.perform_bind trivial fun ret => Total.ret fun hret => ⟨hinput, ?_⟩
      exact holds_running h.inited hblake (if_pos hret) (.inr ⟨htaken, h.update hrun input⟩)
    next hcontext => exact absurd ⟨hblake, hcontext⟩ h.fresh

/-- What a `Finalize` leaves of the output. -/
theorem finalize_total {hash : Hash D} {taken : Bytes} (h : Holds hash taken) (hne : taken ≠ [])
    (output : Bytes) : Total HashCall.OffStream (hash.finalize output) fun ret =>
      ret.1.2 = if ret.1.1 then output ++ D.of taken else output := by
  have hdigest : ∀ c, hash.running = some c → D.final c = D.of taken := by
    intro c hc
    rcases h.running c hc with ⟨heq, -⟩ | ⟨-, rfl⟩
    · exact absurd heq hne
    · rfl
  unfold finalize
  rw [if_neg (by rw [h.inited]; decide)]
  split
  next c hblake =>
    refine Total.ret ?_
    rw [if_pos rfl, hdigest c (by rw [running, hblake])]
  next hblake =>
    refine Total.perform_bind trivial fun outputArray => ?_
    split
    · exact Total.ret rfl
    · cases hcontext : hash.context with
      | unset => exact Total.ret rfl
      | stale => exact absurd ⟨hblake, hcontext⟩ h.fresh
      | running c =>
        have hrun : hash.running = some c := by rw [running, hblake, hcontext]; rfl
        refine Total.perform_bind trivial fun ret => ?_
        cases ret with
        | none => exact Total.ret rfl
        | some written =>
          refine Total.ret ?_
          rw [if_pos rfl, hdigest c hrun]

end Hash

end CdfCrypto.Cryption
