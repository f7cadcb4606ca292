import CdfCrypto.Jwt.Token

/-!
# The keys of a server

How `SetKey` and `RefreshKey` end is told once, by `SetKeyEnds` and `RefreshKeyEnds`. A refresh
gives up the old key before it does anything that can fail, and the present one before it has
memory for the next: what it leaves where it fails is what was there only for a few of its
failures (`refreshKey_atomic_iff`).
-/

namespace CdfCrypto.Jwt

open Lib KeyManagement

variable {k k' : JwtKeyPass} {key : Option Bytes} {len : UInt32} {type : KeyManagerTy} {d : Nat}
variable {alg : CryptoSymAlg} {tr : List JwtEvent} {rc : JwtAuthRC}

/-! ## How the keys are set -/

/-- What is copied of the present key. -/
def JwtKeyPass.copied (k : JwtKeyPass) : Option Bytes :=
  JwtKeyPass.copyFrom k.keyLen k.key k.keyLen.toNat

/-- What is copied of a ciphertext. -/
def copiedCipher (cipher : Bytes) : Option Bytes :=
  JwtKeyPass.copyFrom cipher.length.toUInt32 (some cipher) cipher.length

/-- The present key is gone, and its length is the next one's. -/
def JwtKeyPass.cleared (k : JwtKeyPass) (cipher : Bytes) : JwtKeyPass :=
  { k with key := none, keyLen := cipher.length.toUInt32 }

/-- How `SetKey` ends. -/
inductive SetKeyEnds (k : JwtKeyPass) (key : Option Bytes) (len : UInt32) (type : KeyManagerTy)
    (d : Nat) (alg : CryptoSymAlg) : List JwtEvent → JwtAuthRC → JwtKeyPass → Prop
  | refused (hkey : key = none ∨ len = 0) : SetKeyEnds k key len type d alg [] .paramInvalid k
  | notEncrypted {now : Int64} {buf : Bytes} {result : CryptionRC × Bytes} (hkey : key = some buf)
      (hrc : result.1 ≠ .ok) : SetKeyEnds k key len type d alg
        [⟨.clockGettime, now⟩, ⟨.encrypt type alg (buf.take len.toNat) d, result⟩] .encryptFail k
  | noMemory {now : Int64} {buf cipher : Bytes} (hkey : key = some buf) :
      SetKeyEnds k key len type d alg
        [⟨.clockGettime, now⟩, ⟨.encrypt type alg (buf.take len.toNat) d, (.ok, cipher)⟩,
          ⟨.newChars cipher.length.toUInt32.toNat, false⟩] .newObjFail (k.cleared cipher)
  | notCopied {now : Int64} {buf cipher : Bytes} (hkey : key = some buf)
      (hcopy : copiedCipher cipher = none) : SetKeyEnds k key len type d alg
        [⟨.clockGettime, now⟩, ⟨.encrypt type alg (buf.take len.toNat) d, (.ok, cipher)⟩,
          ⟨.newChars cipher.length.toUInt32.toNat, true⟩] .setKeyFail (k.cleared cipher)
  | set {now : Int64} {buf cipher copy : Bytes} (hkey : key = some buf)
      (hcopy : copiedCipher cipher = some copy) : SetKeyEnds k key len type d alg
        [⟨.clockGettime, now⟩, ⟨.encrypt type alg (buf.take len.toNat) d, (.ok, cipher)⟩,
          ⟨.newChars cipher.length.toUInt32.toNat, true⟩] .ok
        { k.cleared cipher with key := some copy, newKeyCreateTimeSec := now.toUInt64 }

theorem setKey_ends (k : JwtKeyPass) (key : Option Bytes) (len : UInt32) (type : KeyManagerTy)
    (d : Nat) (alg : CryptoSymAlg) : wp (k.setKey key len type d alg) fun tr o =>
      ∃ rc k', o = .ret (rc, k') ∧ SetKeyEnds k key len type d alg tr rc k' := by
  unfold JwtKeyPass.setKey
  split
  · exact ⟨_, _, rfl, .refused (.inl rfl)⟩
  next buf =>
  split
  next hlen => exact ⟨_, _, rfl, .refused (.inr hlen)⟩
  refine wp_perform_bind.mpr fun now => wp_perform_bind.mpr fun result => ?_
  split
  next hrc => exact ⟨_, _, rfl, .notEncrypted rfl hrc⟩
  next hrc =>
  obtain ⟨rc, cipher⟩ := result
  obtain rfl : rc = .ok := not_not.mp hrc
  refine wp_perform_bind.mpr fun allocated => ?_
  cases allocated with
  | false => exact ⟨_, _, rfl, .noMemory rfl⟩
  | true =>
    rw [if_neg (not_not.mpr rfl)]
    dsimp only
    split
    next hcopy => exact ⟨_, _, rfl, .notCopied rfl hcopy⟩
    next copy hcopy => exact ⟨_, _, rfl, .set rfl hcopy⟩

/-- The old key is gone, and its length is the present one's. -/
def JwtKeyPass.oldDropped (k : JwtKeyPass) : JwtKeyPass :=
  { k with oldKey := none, oldKeyLen := k.keyLen }

/-- The present key is the old one too. -/
def JwtKeyPass.moved (k : JwtKeyPass) (copy : Bytes) : JwtKeyPass :=
  { k.oldDropped with oldKey := some copy, oldKeyCreateTimeSec := k.newKeyCreateTimeSec }

/-- How `RefreshKey` ends. -/
inductive RefreshKeyEnds (k : JwtKeyPass) (key : Option Bytes) (len : UInt32) (type : KeyManagerTy)
    (d : Nat) (alg : CryptoSymAlg) : List JwtEvent → JwtAuthRC → JwtKeyPass → Prop
  | refused (hkey : key = none ∨ len = 0) : RefreshKeyEnds k key len type d alg [] .paramInvalid k
  | noMemory (hkey : ¬ (key = none ∨ len = 0)) : RefreshKeyEnds k key len type d alg
      [⟨.newChars k.keyLen.toNat, false⟩] .newObjFail k.oldDropped
  | notCopied (hkey : ¬ (key = none ∨ len = 0)) (hcopy : k.copied = none) :
      RefreshKeyEnds k key len type d alg [⟨.newChars k.keyLen.toNat, true⟩] .refreshKeyFail
        k.oldDropped
  | moved {copy : Bytes} {tr : List JwtEvent} {rc : JwtAuthRC} {k' : JwtKeyPass}
      (hkey : ¬ (key = none ∨ len = 0)) (hcopy : k.copied = some copy)
      (hset : SetKeyEnds (k.moved copy) key len type d alg tr rc k') :
      RefreshKeyEnds k key len type d alg (⟨.newChars k.keyLen.toNat, true⟩ :: tr)
        (if rc ≠ .ok then .refreshKeyFail else .ok) k'

theorem refreshKey_ends (k : JwtKeyPass) (key : Option Bytes) (len : UInt32) (type : KeyManagerTy)
    (d : Nat) (alg : CryptoSymAlg) : wp (k.refreshKey key len type d alg) fun tr o =>
      ∃ rc k', o = .ret (rc, k') ∧ RefreshKeyEnds k key len type d alg tr rc k' := by
  unfold JwtKeyPass.refreshKey
  split
  next hkey => exact ⟨_, _, rfl, .refused hkey⟩
  next hkey =>
  dsimp only
  refine wp_perform_bind.mpr fun allocated => ?_
  cases allocated with
  | false => exact ⟨_, _, rfl, .noMemory hkey⟩
  | true =>
    rw [if_neg (not_not.mpr rfl)]
    split
    next hcopy => exact ⟨_, _, rfl, .notCopied hkey hcopy⟩
    next copy hcopy =>
      refine wp_bind_of (setKey_ends (k.moved copy) key len type d alg) (fun tr set hset => ?_)
        fun tr x hx => ?_
      · obtain ⟨rc, k', heq, hends⟩ := hset
        obtain rfl := Outcome.ret.inj heq
        refine ⟨_, _, rfl, ?_⟩
        rw [List.append_nil]
        exact .moved hkey hcopy hends
      · obtain ⟨rc, k', heq, -⟩ := hx
        cases heq

/-! ## What becomes of the times -/

/-- What an operation on the keys does with the hours and the time of the present key. -/
structure PresentTimed (k : JwtKeyPass) (tr : List JwtEvent) (rc : JwtAuthRC) (k' : JwtKeyPass) :
    Prop where
  hours : k'.serverKeyExpiredHours = k.serverKeyExpiredHours
  set : rc = .ok → ∀ now, ⟨.clockGettime, now⟩ ∈ tr → k'.newKeyCreateTimeSec = now.toUInt64
  kept : rc ≠ .ok → k'.newKeyCreateTimeSec = k.newKeyCreateTimeSec

theorem SetKeyEnds.timed (h : SetKeyEnds k key len type d alg tr rc k') :
    PresentTimed k tr rc k' ∧ k'.oldKeyCreateTimeSec = k.oldKeyCreateTimeSec := by
  cases h with
  | refused => exact ⟨⟨rfl, nofun, fun _ => rfl⟩, rfl⟩
  | notEncrypted => exact ⟨⟨rfl, nofun, fun _ => rfl⟩, rfl⟩
  | noMemory => exact ⟨⟨rfl, nofun, fun _ => rfl⟩, rfl⟩
  | notCopied => exact ⟨⟨rfl, nofun, fun _ => rfl⟩, rfl⟩
  | set =>
    refine ⟨⟨rfl, fun _ now hnow => ?_, fun hrc => absurd rfl hrc⟩, rfl⟩
    simp only [List.mem_cons, Sigma.mk.injEq, heq_eq_eq, true_and, reduceCtorEq, false_and,
      List.not_mem_nil, or_false] at hnow
    rw [hnow]

theorem RefreshKeyEnds.timed (h : RefreshKeyEnds k key len type d alg tr rc k') :
    PresentTimed k tr rc k' ∧ (rc = .ok → k'.oldKeyCreateTimeSec = k.newKeyCreateTimeSec) := by
  cases h with
  | refused => exact ⟨⟨rfl, nofun, fun _ => rfl⟩, nofun⟩
  | noMemory => exact ⟨⟨rfl, nofun, fun _ => rfl⟩, nofun⟩
  | notCopied => exact ⟨⟨rfl, nofun, fun _ => rfl⟩, nofun⟩
  | @moved copy tr rc _ _ _ hset =>
    obtain ⟨⟨hhours, hnow, hkept⟩, hold⟩ := hset.timed
    by_cases hrc : rc = .ok
    · rw [if_neg (not_not.mpr hrc)]
      refine ⟨⟨hhours, fun _ now hmem => hnow hrc now ?_, fun hne => absurd rfl hne⟩, fun _ => hold⟩
      exact (List.mem_cons.mp hmem).resolve_left (by simp)
    · rw [if_pos hrc]
      exact ⟨⟨hhours, nofun, fun _ => hkept hrc⟩, nofun⟩

/-! ## A refresh that fails -/

/-- What the environment answers to a refresh, as far as it goes. -/
structure RefreshAnswers where
  oldAllocated : Bool
  encrypted : CryptionRC × Bytes
  newAllocated : Bool

/-- These are the answers in the trace. -/
def RefreshAnswers.In (a : RefreshAnswers) (tr : List JwtEvent) : Prop :=
  ∃ oldSize now type alg plaintext d newSize, tr <+: [⟨.newChars oldSize, a.oldAllocated⟩,
    ⟨.clockGettime, now⟩, ⟨.encrypt type alg plaintext d, a.encrypted⟩,
    ⟨.newChars newSize, a.newAllocated⟩]

/-- The old key is the present one, with its time. -/
def JwtKeyPass.Doubled (k : JwtKeyPass) : Prop :=
  k.oldKey = k.copied ∧ k.oldKeyLen = k.keyLen ∧ k.oldKeyCreateTimeSec = k.newKeyCreateTimeSec

/-- The refresh succeeds, or it fails where it has changed nothing yet: the parameters are refused;
there is no place for the old key, and there was none before; or there is no new key, and the old
one was the present one before. -/
def RefreshAnswers.Spare (a : RefreshAnswers) (k : JwtKeyPass) (key : Option Bytes) (len : UInt32) :
    Prop :=
  key = none ∨ len = 0 ∨
    (a.oldAllocated = false ∨ k.copied = none) ∧ k.oldKey = none ∧ k.oldKeyLen = k.keyLen ∨
    (a.oldAllocated = true ∧ k.copied ≠ none) ∧ a.encrypted.1 ≠ .ok ∧ k.Doubled ∨
    (a.oldAllocated = true ∧ k.copied ≠ none) ∧ a.encrypted.1 = .ok ∧ a.newAllocated = true ∧
      copiedCipher a.encrypted.2 ≠ none

theorem oldDropped_eq_iff : k.oldDropped = k ↔ k.oldKey = none ∧ k.oldKeyLen = k.keyLen := by
  obtain ⟨key, keyLen, oldKey, oldKeyLen, hours, newTime, oldTime⟩ := k
  unfold JwtKeyPass.oldDropped
  simp only [JwtKeyPass.mk.injEq, true_and, and_true]
  exact and_congr eq_comm eq_comm

theorem moved_eq_iff {copy : Bytes} (hcopy : k.copied = some copy) :
    k.moved copy = k ↔ k.Doubled := by
  unfold JwtKeyPass.Doubled
  rw [hcopy]
  obtain ⟨key, keyLen, oldKey, oldKeyLen, hours, newTime, oldTime⟩ := k
  unfold JwtKeyPass.moved JwtKeyPass.oldDropped
  simp only [JwtKeyPass.mk.injEq, true_and]
  exact and_congr eq_comm (and_congr eq_comm eq_comm)

/-- A present key that was copied is not gone. -/
theorem cleared_moved_ne {copy cipher : Bytes} (hcopy : k.copied = some copy) :
    (k.moved copy).cleared cipher ≠ k := by
  intro heq
  have hkey : k.key = none := (congrArg JwtKeyPass.key heq).symm
  unfold JwtKeyPass.copied at hcopy
  rw [hkey] at hcopy
  cases hcopy

section Spare

variable {a : RefreshAnswers} (hkey : ¬ (key = none ∨ len = 0))
include hkey

theorem spare_of_dropped (hdropped : a.oldAllocated = false ∨ k.copied = none) :
    a.Spare k key len ↔ k.oldKey = none ∧ k.oldKeyLen = k.keyLen := by
  have hnot : ¬ (a.oldAllocated = true ∧ k.copied ≠ none) := by
    intro h
    rcases hdropped with hfalse | hnone
    · rw [hfalse] at h
      cases h.1
    · exact h.2 hnone
  unfold RefreshAnswers.Spare
  rw [← or_assoc, or_iff_right hkey, and_iff_right hdropped]
  exact or_iff_left fun h => h.elim (fun h => hnot h.1) fun h => hnot h.1

variable (hmoved : a.oldAllocated = true ∧ k.copied ≠ none)
include hmoved

theorem spare_of_moved : a.Spare k key len ↔ a.encrypted.1 ≠ .ok ∧ k.Doubled ∨
    a.encrypted.1 = .ok ∧ a.newAllocated = true ∧ copiedCipher a.encrypted.2 ≠ none := by
  have hnot : ¬ (a.oldAllocated = false ∨ k.copied = none) := by
    intro h
    rcases h with hfalse | hnone
    · rw [hfalse] at hmoved
      cases hmoved.1
    · exact hmoved.2 hnone
  unfold RefreshAnswers.Spare
  rw [← or_assoc, or_iff_right hkey, or_iff_right fun h => hnot h.1, and_iff_right hmoved,
    and_iff_right hmoved]

theorem spare_of_notEncrypted (hrc : a.encrypted.1 ≠ .ok) :
    a.Spare k key len ↔ k.Doubled := by
  rw [spare_of_moved hkey hmoved]
  exact (or_iff_left fun h => hrc h.1).trans (and_iff_right hrc)

theorem spare_of_encrypted (hrc : a.encrypted.1 = .ok) : a.Spare k key len ↔
    a.newAllocated = true ∧ copiedCipher a.encrypted.2 ≠ none := by
  rw [spare_of_moved hkey hmoved]
  exact (or_iff_right fun h => h.1 hrc).trans (and_iff_right hrc)

end Spare

/-- **When a refresh that fails leaves the keys as they were**: exactly where it fails before it
has changed any of them, or where the change makes no difference. -/
theorem refreshKey_atomic_iff {a : RefreshAnswers}
    (htr : Traces (k.refreshKey key len type d alg) tr (.ret (rc, k'))) (ha : a.In tr) :
    (rc ≠ .ok → k' = k) ↔ a.Spare k key len := by
  obtain ⟨_, _, heq, hends⟩ := wp_iff.mp (refreshKey_ends k key len type d alg) _ _ htr
  cases heq
  obtain ⟨oldAllocated, encrypted, newAllocated⟩ := a
  obtain ⟨oldSize, now, type', alg', plaintext, d', newSize, hprefix⟩ := ha
  dsimp only at hprefix
  cases hends with
  | refused hrefused => exact ⟨fun _ => hrefused.imp_right .inl, fun _ _ => rfl⟩
  | noMemory hkey =>
    cases (List.cons_prefix_cons.mp hprefix).1
    rw [spare_of_dropped hkey (.inl rfl), ← oldDropped_eq_iff]
    exact ⟨fun h => h (by decide), fun h _ => h⟩
  | notCopied hkey hcopy =>
    rw [spare_of_dropped hkey (.inr hcopy), ← oldDropped_eq_iff]
    exact ⟨fun h => h (by decide), fun h _ => h⟩
  | @moved copy tr rc k' hkey hcopy hset =>
    obtain ⟨hold, hafter⟩ := List.cons_prefix_cons.mp hprefix
    cases hold
    have hmoved : true = true ∧ k.copied ≠ none := ⟨rfl, hcopy ▸ Option.some_ne_none copy⟩
    cases hset with
    | refused hrefused => exact absurd hrefused hkey
    | notEncrypted _ hrc =>
      cases (List.cons_prefix_cons.mp (List.cons_prefix_cons.mp hafter).2).1
      rw [spare_of_notEncrypted hkey hmoved hrc, ← moved_eq_iff hcopy]
      exact ⟨fun h => h (by decide), fun h _ => h⟩
    | noMemory _ =>
      obtain ⟨hencrypted, hlast⟩ := List.cons_prefix_cons.mp (List.cons_prefix_cons.mp hafter).2
      cases hencrypted
      cases (List.cons_prefix_cons.mp hlast).1
      rw [spare_of_encrypted hkey hmoved rfl]
      exact ⟨fun h => absurd (h (by decide)) (cleared_moved_ne hcopy), fun h => nomatch h.1⟩
    | notCopied _ hcipher =>
      cases (List.cons_prefix_cons.mp (List.cons_prefix_cons.mp hafter).2).1
      rw [spare_of_encrypted hkey hmoved rfl]
      exact ⟨fun h => absurd (h (by decide)) (cleared_moved_ne hcopy), fun h => absurd hcipher h.2⟩
    | set _ hcipher =>
      obtain ⟨hencrypted, hlast⟩ := List.cons_prefix_cons.mp (List.cons_prefix_cons.mp hafter).2
      cases hencrypted
      cases (List.cons_prefix_cons.mp hlast).1
      rw [spare_of_encrypted hkey hmoved rfl]
      exact ⟨fun _ => ⟨rfl, hcipher ▸ Option.some_ne_none _⟩, fun _ hrc => absurd rfl hrc⟩

/-- A key that has been set, and one before it. -/
def sampleKeyPass : JwtKeyPass where
  key := some (ascii "vault:v1:new")
  keyLen := 12
  oldKey := some (ascii "vault:v1:old")
  oldKeyLen := 12
  newKeyCreateTimeSec := 1700003600
  oldKeyCreateTimeSec := 1700000000

/-- The next one, of the least length for a key of HMAC-SHA-256. -/
def nextKey : Option Bytes := some (List.replicate 32 75)

/-- The key manager does not encrypt it. -/
def notEncryptedTrace : List JwtEvent := [⟨.newChars 12, true⟩, ⟨.clockGettime, 1700007200⟩,
  ⟨.encrypt .openbao .aes256Gcm (List.replicate 32 75) 0, (.error, [])⟩]

theorem sampleKeyPass_traces : Traces (sampleKeyPass.refreshKey nextKey 32 .openbao 0 .aes256Gcm)
    notEncryptedTrace (.ret (.refreshKeyFail, sampleKeyPass.moved (ascii "vault:v1:new"))) :=
  .call (.call (.call (.ret _)))

theorem moved_sampleKeyPass_ne : sampleKeyPass.moved (ascii "vault:v1:new") ≠ sampleKeyPass := fun heq =>
  absurd (congrArg JwtKeyPass.oldKey heq) (by decide)

/-- The first failure is not spared; after it the old key is the present one, and the next failure
changes nothing. -/
theorem refreshKey_atomic_iff_sample :
    ¬ RefreshAnswers.Spare ⟨true, (.error, []), true⟩ sampleKeyPass nextKey 32 ∧
      RefreshAnswers.Spare ⟨true, (.error, []), true⟩ (sampleKeyPass.moved (ascii "vault:v1:new"))
        nextKey 32 := by
  have hanswers : RefreshAnswers.In ⟨true, (.error, []), true⟩ notEncryptedTrace :=
    ⟨_, _, _, _, _, _, 0, [_], rfl⟩
  have hagain : Traces ((sampleKeyPass.moved (ascii "vault:v1:new")).refreshKey nextKey 32 .openbao 0
      .aes256Gcm) notEncryptedTrace
      (.ret (.refreshKeyFail, sampleKeyPass.moved (ascii "vault:v1:new"))) :=
    .call (.call (.call (.ret _)))
  constructor
  · intro hspare
    exact moved_sampleKeyPass_ne
      ((refreshKey_atomic_iff sampleKeyPass_traces hanswers).mpr hspare (by decide))
  · exact (refreshKey_atomic_iff hagain hanswers).mp fun _ => rfl

/-- The key manager fails, and the tokens of the old key are no longer accepted. -/
theorem refresh_drops_oldKey : ¬ ∀ (k k' : JwtKeyPass) (key : Option Bytes) (len : UInt32)
    (type : KeyManagerTy) (d : Nat) (alg : CryptoSymAlg) (tr : List JwtEvent) (rc : JwtAuthRC),
    Traces (k.refreshKey key len type d alg) tr (.ret (rc, k')) → rc ≠ .ok → k' = k :=
  fun hall => moved_sampleKeyPass_ne (hall _ _ _ _ _ _ _ _ _ sampleKeyPass_traces (by decide))

end CdfCrypto.Jwt
