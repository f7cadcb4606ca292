import CdfCrypto.KeyManagement.EmptyDomains

/-!
# The ids `CreateKey` gives

`GenerateKeyId` counts the keys of the domain and takes one past the largest id. It refuses a
domain of `MAX_KEY_COUNT` keys and an id past `UINT16_MAX`, so an id is new in its domain, larger
than all that are in it, and has 16 bits, whatever was created and removed before.

The documentation allows 1022 keys; `MAX_KEY_COUNT` is 1023, and the guard is on the keys that are
there already. So a domain keeps to the documented number until a `CreateKey` succeeds on one
that has it (`allocates_of_run`).
-/

namespace CdfCrypto.KeyManagement

open Lib OpenbaoKeyManager

/-! ## Keys of a domain -/

/-- The number of keys `CreateKey` is documented to allow. -/
def documentedKeyCount : Nat := 1022

/-- No domain has more. -/
def Capped (m : OpenbaoKeyManager) : Prop :=
  ∀ d, (m.domainKeyMap.at' d).size ≤ documentedKeyCount

namespace DomainKeyMap

variable {map : DomainKeyMap} {d d' k : Nat} {t : Int}

/-- A new key is one more in its domain. -/
theorem size_addKey (hnew : ¬ map.Holds d k) :
    ((map.addKey d k t).at' d').size = (map.at' d').size + if d = d' then 1 else 0 := by
  rw [addKey, at'_insert]
  by_cases heq : d = d'
  · subst heq
    rw [if_pos rfl, if_pos rfl, Std.ExtTreeMap.size_insertIfNew]
    exact if_neg hnew
  · rw [if_neg heq, if_neg heq, Nat.add_zero]

theorem size_eraseKey_le : ((map.eraseKey d k).at' d').size ≤ (map.at' d').size := by
  rw [eraseKey, at'_insert]
  by_cases heq : d = d'
  · subst heq
    rw [if_pos rfl]
    exact Std.ExtTreeMap.size_erase_le
  · rw [if_neg heq]

end DomainKeyMap

variable {H : KmHost} {m : OpenbaoKeyManager} {d : Nat}

/-- The id that `GenerateKeyId` gives is past all of its domain. -/
theorem generateKeyId_lt {id : Nat} (h : (m.generateKeyId d).1 = (.ok, id)) :
    ∀ k, m.domainKeyMap.Holds d k → k < id := by
  intro k hk
  unfold OpenbaoKeyManager.generateKeyId at h
  dsimp only at h
  split at h
  · cases h
  split at h
  next hnone =>
    rw [DomainKeyMap.Holds, lastKey?_eq_none.mp hnone] at hk
    exact absurd hk Std.ExtTreeMap.not_mem_empty
  next maxId hmax =>
    split at h
    · cases h
    · obtain rfl := (Prod.mk.inj h).2
      have hle : k ≤ maxId := (lastKey?_eq_some.mp hmax).2 k hk
      omega

/-- It gives `n` to a domain with the keys below `n`, while there is room. -/
theorem generateKeyId_of_below {n : Nat} (hsize : (m.domainKeyMap.at' d).size = n)
    (hkeys : ∀ k, m.domainKeyMap.Holds d k ↔ k < n) (hroom : n < maxKeyCount) :
    (m.generateKeyId d).1 = (.ok, n) := by
  unfold OpenbaoKeyManager.generateKeyId
  dsimp only
  rw [if_neg (by omega)]
  cases n with
  | zero =>
    have hnone : lastKey? (m.domainKeyMap.at' d) = none := by
      rw [lastKey?_eq_none, Std.ExtTreeMap.eq_empty_iff_forall_not_mem]
      intro k hk
      exact absurd ((hkeys k).mp hk) (by omega)
    rw [hnone]
  | succ n =>
    have hlast : lastKey? (m.domainKeyMap.at' d) = some n := by
      refine lastKey?_eq_some.mpr ⟨(hkeys n).mpr (by omega), fun k hk => ?_⟩
      have := (hkeys k).mp hk
      omega
    rw [hlast]
    have hbits : ¬ 65535 ≤ n := by
      unfold maxKeyCount at hroom
      omega
    dsimp only
    rw [if_neg hbits]

/-! ## Runs -/

/-- The operations that create and remove keys. -/
def Allocates : Op → Prop
  | .createKey _ => True
  | .removeKey _ _ => True
  | .deleteAllKey => True
  | _ => False

def AllocStep (H : KmHost) (m : OpenbaoKeyManager) (call : OpCall) (m' : OpenbaoKeyManager) : Prop :=
  Allocates call.op ∧ OpStep H m call m'

/-- The id of a `CreateKey` that succeeds has 16 bits and is past all of its domain. -/
def FreshId (m : OpenbaoKeyManager) : Op → Answer → Prop
  | .createKey d, .keyId .ok id =>
    id ≤ 65535 ∧ ¬ m.domainKeyMap.Holds d id ∧ ∀ k, m.domainKeyMap.Holds d k → k < id
  | _, _ => True

/-- No key is created in a domain that has the documented number. -/
def LeavesRoom (H : KmHost) (m : OpenbaoKeyManager) (call : OpCall) : Prop :=
  match call.op with
  | .createKey d => (m.domainKeyMap.at' d).size = documentedKeyCount → ¬ Dated H call.tr d
  | _ => True

/-- The id is right wherever the manager comes from. -/
theorem prog_fresh (H : KmHost) (m : OpenbaoKeyManager) {op : Op} (hop : Allocates op) :
    wp (op.prog H m) fun _ o => ∀ answer m', o = .ret (answer, m') → FreshId m op answer := by
  cases op with
  | createKey d =>
    refine (wp_bind_ret fun _ => rfl).mpr (wp_mono (createKey_ends H m d) fun tr o h => ?_)
    intro answer m' heq
    -- a refusal gives out no id
    have hfailed : ∀ {r : KeyManagerRC × Nat}, r.1 ≠ .ok → FreshId m (.createKey d) (.keyId r.1 r.2) := by
      intro r hrc
      unfold FreshId
      split
      next heq =>
        obtain ⟨hok, -⟩ := Answer.keyId.inj heq
        exact absurd hok hrc
      next => trivial
    cases h with
    | refused _ hrc _ =>
      obtain ⟨rfl, rfl⟩ := Prod.mk.inj (Outcome.ret.inj heq)
      exact hfailed hrc
    | failed _ hrc _ =>
      obtain ⟨rfl, rfl⟩ := Prod.mk.inj (Outcome.ret.inj heq)
      exact hfailed hrc
    | created _ hid _ =>
      obtain ⟨rfl, rfl⟩ := Prod.mk.inj (Outcome.ret.inj heq)
      have hspec := generateKeyId_spec (m := m) (d := d) (by rw [hid])
      rw [hid] at hspec
      exact ⟨hspec.2, hspec.1, generateKeyId_lt hid⟩
    | halted => cases heq
  | removeKey d k => exact wp_iff.mpr fun _ _ _ _ _ _ => trivial
  | deleteAllKey => exact wp_iff.mpr fun _ _ _ _ _ _ => trivial
  | _ => exact hop.elim

theorem createKey_capped (hcapped : Capped m) (d : Nat) :
    wp (Op.prog H m (.createKey d)) fun tr o => ∀ answer m', o = .ret (answer, m') →
      (Capped m' ↔ LeavesRoom H m ⟨.createKey d, tr⟩) := by
  refine (wp_bind_ret fun _ => rfl).mpr (wp_mono (createKey_ends H m d) fun tr o h => ?_)
  intro answer m' heq
  cases h with
  | refused _ _ hnot =>
    obtain ⟨rfl, rfl⟩ := Prod.mk.inj (Outcome.ret.inj heq)
    exact ⟨fun _ _ => hnot, fun _ => hcapped⟩
  | failed _ _ hnot =>
    obtain ⟨rfl, rfl⟩ := Prod.mk.inj (Outcome.ret.inj heq)
    refine ⟨fun _ _ => hnot, fun _ d' => ?_⟩
    -- a failure after the look-up leaves the domain behind, with no key in it
    show ((m.domainKeyMap.touch d).at' d').size ≤ documentedKeyCount
    rw [DomainKeyMap.at'_touch]
    exact hcapped d'
  | @created id time hvalid hid hdated =>
    obtain ⟨rfl, rfl⟩ := Prod.mk.inj (Outcome.ret.inj heq)
    have hspec := generateKeyId_spec (m := m) (d := d) (by rw [hid])
    rw [hid] at hspec
    have hnew : ¬ (m.domainKeyMap.touch d).Holds d id := by
      rw [DomainKeyMap.holds_touch]
      exact hspec.1
    have hsize : ∀ d', (((m.domainKeyMap.touch d).addKey d id time).at' d').size =
        (m.domainKeyMap.at' d').size + if d = d' then 1 else 0 := by
      intro d'
      rw [DomainKeyMap.size_addKey hnew, DomainKeyMap.at'_touch]
    -- the domain has one key more, the others are as they were
    constructor
    · intro hafter hfull
      have hle := hafter d
      dsimp only at hle
      rw [hsize, if_pos rfl] at hle
      omega
    · intro hroom d'
      show (((m.domainKeyMap.touch d).addKey d id time).at' d').size ≤ documentedKeyCount
      have hold := hcapped d'
      rw [hsize]
      by_cases heq : d = d'
      · subst heq
        have hne : (m.domainKeyMap.at' d).size ≠ documentedKeyCount := fun hfull => hroom hfull hdated
        rw [if_pos rfl]
        omega
      · rw [if_neg heq]
        exact hold
  | halted => cases heq

/-- **One operation**, from a map that keeps to the documented number. -/
theorem prog_capped (hcapped : Capped m) {op : Op} (hop : Allocates op) :
    wp (op.prog H m) fun tr o => ∀ answer m', o = .ret (answer, m') →
      (Capped m' ↔ LeavesRoom H m ⟨op, tr⟩) := by
  cases op with
  | createKey d => exact createKey_capped hcapped d
  | removeKey d k =>
    refine (wp_bind_ret fun _ => rfl).mpr (wp_mono (removeKey_traces m d k) fun tr o h => ?_)
    intro answer m' heq
    refine ⟨fun _ => trivial, fun _ => ?_⟩
    cases h with
    | refused _ =>
      obtain ⟨rfl, rfl⟩ := Prod.mk.inj (Outcome.ret.inj heq)
      exact hcapped
    | failed _ =>
      obtain ⟨rfl, rfl⟩ := Prod.mk.inj (Outcome.ret.inj heq)
      exact hcapped
    | removed _ _ =>
      obtain ⟨rfl, rfl⟩ := Prod.mk.inj (Outcome.ret.inj heq)
      intro d'
      show (((m.domainKeyMap.eraseKey d k).dropIfEmpty d).at' d').size ≤ documentedKeyCount
      rw [DomainKeyMap.at'_dropIfEmpty]
      exact DomainKeyMap.size_eraseKey_le.trans (hcapped d')
  | deleteAllKey =>
    refine (wp_bind_ret fun _ => rfl).mpr (wp_mono (deleteAllKey_leaves m) fun tr o h => ?_)
    intro answer m' heq
    refine ⟨fun _ => trivial, fun _ => ?_⟩
    cases o with
    | halt x => cases heq
    | ret a =>
      obtain ⟨rfl, rfl⟩ := Prod.mk.inj (Outcome.ret.inj heq)
      show Capped a.2
      rcases h a.1 a.2 rfl with hsame | hnone
      · rw [hsame]
        exact hcapped
      · rw [hnone]
        exact fun d' => Nat.zero_le _
  | _ => exact hop.elim

/-- **Ids.** In a run from a manager without keys, a `CreateKey` that succeeds gives a 16-bit id past
all of its domain. While no key was created in a domain that had the documented number, no domain
has more, and the next operation keeps it so exactly where it creates none there. -/
theorem allocates_of_run {m₀ : OpenbaoKeyManager} (hempty : m₀.domainKeyMap = ∅) :
    (∀ calls m, Run (AllocStep H) m₀ calls m → ∀ (call : OpCall) answer m', Allocates call.op →
      Traces (call.op.prog H m) call.tr (.ret (answer, m')) → FreshId m call.op answer) ∧
    ∀ calls m, Run (Guarded (LeavesRoom H) (AllocStep H)) m₀ calls m → Capped m ∧
      ∀ (call : OpCall) answer m', Allocates call.op →
        Traces (call.op.prog H m) call.tr (.ret (answer, m')) →
          (Capped m' ↔ LeavesRoom H m call) := by
  refine ⟨fun calls m _ call answer m' hop htr => ?_, fun calls m hrun => ?_⟩
  · exact wp_iff.mp (prog_fresh H m hop) _ _ htr answer m' rfl
  have hcapped : Capped m := by
    refine Run.invariant (I := Capped) ?_ hrun fun d => ?_
    · intro m call m' hcapped hstep
      obtain ⟨hroom, hop, answer, htr⟩ := hstep
      exact (wp_iff.mp (prog_capped hcapped hop) _ _ htr answer m' rfl).mpr hroom
    · rw [hempty]
      exact Nat.zero_le _
  refine ⟨hcapped, fun call answer m' hop htr => ?_⟩
  exact wp_iff.mp (prog_capped hcapped hop) _ _ htr answer m' rfl

/-! ## One key more -/

section Eval

variable {answer : (c : Call) → c.Reply} {exePath token : Bytes} {cmd : Command}

theorem eval_runCommandAndGetResult (htoken : token ≠ []) :
    (runCommandAndGetResult exePath token cmd).eval answer =
      .ret (commandResult (answer (.run exePath token cmd))) := by
  unfold runCommandAndGetResult
  rw [if_neg (Command.text_ne_nil exePath cmd), if_neg htoken]
  rfl

theorem eval_runCommandAndCheck (htoken : token ≠ [])
    (hok : (commandResult (answer (.run exePath token cmd))).1 = .ok) :
    (runCommandAndCheck exePath token cmd).eval answer = .ret .ok := by
  unfold runCommandAndCheck
  rw [eval_bind (eval_runCommandAndGetResult htoken), if_neg (not_not.mpr hok)]
  rfl

theorem eval_locked {α : Type} {mode : LockMode} {body : Km α} {a : α}
    (h : body.eval answer = .ret a) : (locked mode body).eval answer = .ret a := by
  unfold locked
  rw [eval_perform_bind, eval_bind h]
  rfl

end Eval

/-- Where the vault does what it is told, `CreateKey` succeeds. -/
theorem createKey_sample {id : Nat} (hinited : m.inited = true) (htoken : m.accessToken ≠ [])
    (hd : d < m.domainCount.1) (hid : (m.generateKeyId d).1 = (.ok, id)) :
    (m.createKey sampleHost d).eval sampleAnswer = .ret ((.ok, id),
      { m with domainKeyMap := (m.domainKeyMap.touch d).addKey d id 1700000000 }) := by
  have hvalid : m.validateDomain d = .ok := by
    unfold OpenbaoKeyManager.validateDomain
    rw [if_neg (not_not.mpr hinited), if_neg (by omega)]
  have hmap : (m.generateKeyId d).2 = touched m d := generateKeyId_map m d
  have htime : getJsonFieldMaxInt sampleHost.json (ascii "time") = .ok 1700000000 := by decide +kernel
  unfold OpenbaoKeyManager.createKey
  refine eval_locked ?_
  dsimp only
  rw [if_neg (not_not.mpr hvalid), hmap, hid, if_neg (not_not.mpr rfl)]
  have hrun : ∀ cmd, (commandResult (sampleAnswer (.run m.exePath m.accessToken cmd))).1 = .ok →
      (runCommandAndCheck (touched m d).exePath (touched m d).accessToken cmd).eval sampleAnswer =
        .ret .ok := fun _ => eval_runCommandAndCheck htoken
  have hread : (runCommandAndGetResult (touched m d).exePath (touched m d).accessToken
      (.read d id)).eval sampleAnswer = .ret (.ok, ascii "time") := eval_runCommandAndGetResult htoken
  rw [eval_bind (hrun (.create d id) rfl), if_neg (by decide),
    eval_bind (hrun (.config d id [.exportable, .deletionAllowed]) rfl), if_neg (by decide),
    eval_bind hread, if_neg (by decide), htime]
  rfl

/-- A ready manager whose domain 0 has the keys below `n`. -/
structure Filled (m : OpenbaoKeyManager) (n : Nat) : Prop where
  inited : m.inited = true
  token : m.accessToken ≠ []
  size : (m.domainKeyMap.at' 0).size = n
  keys : ∀ k, m.domainKeyMap.Holds 0 k ↔ k < n

/-- There is room for one key more up to `MAX_KEY_COUNT`. -/
theorem Filled.next {n : Nat} (h : Filled m n) (hroom : n < maxKeyCount) :
    ∃ call m', Allocates call.op ∧ OpStep sampleHost m call m' ∧ Filled m' (n + 1) := by
  have hd : 0 < m.domainCount.1 := by
    have := m.domainCount.2.1
    unfold domainIdMin at this
    omega
  have hcreate := createKey_sample h.inited h.token hd (generateKeyId_of_below h.size h.keys hroom)
  have hnew : ¬ (m.domainKeyMap.touch 0).Holds 0 n := by
    rw [DomainKeyMap.holds_touch, h.keys]
    omega
  have hprog : (Op.prog sampleHost m (.createKey 0)).eval sampleAnswer = .ret (.keyId .ok n,
      { m with domainKeyMap := (m.domainKeyMap.touch 0).addKey 0 n 1700000000 }) := eval_bind hcreate
  refine ⟨⟨.createKey 0, _⟩, _, trivial, ⟨_, traces_of_eval hprog⟩, h.inited, h.token, ?_, ?_⟩
  · show (((m.domainKeyMap.touch 0).addKey 0 n 1700000000).at' 0).size = n + 1
    rw [DomainKeyMap.size_addKey hnew, DomainKeyMap.at'_touch, h.size, if_pos rfl]
  · intro k
    show ((m.domainKeyMap.touch 0).addKey 0 n 1700000000).Holds 0 k ↔ k < n + 1
    rw [DomainKeyMap.holds_addKey, DomainKeyMap.holds_touch, h.keys]
    omega

/-- So a run can fill the domain. -/
theorem fill_run (h : Filled m 0) : ∀ n ≤ maxKeyCount,
    ∃ calls m', Run (AllocStep sampleHost) m calls m' ∧ Filled m' n := by
  intro n
  induction n with
  | zero => exact fun _ => ⟨[], m, Run.nil m, h⟩
  | succ n ih =>
    intro hn
    obtain ⟨calls, m₁, hrun, hfilled⟩ := ih (by omega)
    -- one more key at the end of the run
    obtain ⟨call, m₂, hop, hstep, hnext⟩ := hfilled.next (by omega)
    exact ⟨_, m₂, hrun.append (Run.cons ⟨hop, hstep⟩ (Run.nil m₂)), hnext⟩

/-- A ready manager without keys. -/
def barrenManager : OpenbaoKeyManager := { sampleManager with domainKeyMap := ∅ }

theorem filled_barren : Filled barrenManager 0 where
  inited := rfl
  token := by decide
  size := rfl
  keys k := ⟨fun hk => absurd hk Std.ExtTreeMap.not_mem_empty, fun hk => absurd hk (by omega)⟩

theorem createKey_passes_count : ¬ ∀ (H : KmHost) (m₀ : OpenbaoKeyManager) (calls : List OpCall)
    (m : OpenbaoKeyManager), m₀.inited = true → m₀.domainKeyMap = ∅ →
      Run (AllocStep H) m₀ calls m → Capped m := by
  intro hall
  obtain ⟨calls, m', hrun, hfilled⟩ := fill_run filled_barren maxKeyCount (Nat.le_refl _)
  have hle := hall sampleHost barrenManager calls m' rfl rfl hrun 0
  rw [hfilled.size] at hle
  exact absurd hle (by decide)

/-- The 1023rd key, after a run of 1022. -/
theorem allocates_of_run_filled : ∃ (calls : List OpCall) (m : OpenbaoKeyManager) (call : OpCall)
    (answer : Answer) (m' : OpenbaoKeyManager),
    Run (AllocStep sampleHost) barrenManager calls m ∧ Allocates call.op ∧
    Traces (call.op.prog sampleHost m) call.tr (.ret (answer, m')) ∧
    FreshId m call.op answer ∧ ¬ Capped m' := by
  obtain ⟨calls, m, hrun, hfilled⟩ := fill_run filled_barren documentedKeyCount (by decide)
  obtain ⟨call, m', hop, ⟨answer, htr⟩, hnext⟩ := hfilled.next (by decide)
  refine ⟨calls, m, call, answer, m', hrun, hop, htr, ?_, fun hcapped => ?_⟩
  · have hempty : barrenManager.domainKeyMap = ∅ := rfl
    exact (allocates_of_run (H := sampleHost) hempty).1 calls m hrun call answer m' hop htr
  · have hle := hcapped 0
    rw [hnext.size] at hle
    exact absurd hle (by decide)

end CdfCrypto.KeyManagement
