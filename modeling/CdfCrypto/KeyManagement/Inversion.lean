import CdfCrypto.KeyManagement.OpenbaoKeyManager

/-!
# What one operation can do

One lemma for each write to the map of keys, then one inductive for each
operation: `RemoveKeyTrace`, `CreateKeyTrace`, `HandleCommandTrace`, `GetLatestKeyTrace`,
`EncryptTrace` and `DecryptTrace` list the traces of the operation with the way each ends.
The results about the manager cite these and never unfold an operation.

`acquired`, `released` and `ran` are the events that the traces are made of. The
loops (`DeleteAllKey`, the automatic update, the listing of `Init`) have no list
of traces; what they preserve is proved by induction where it is needed, through
`wp`.
-/

namespace CdfCrypto.KeyManagement

open Lib OpenbaoKeyManager

/-! ## The map of keys -/

theorem lastKey?_eq_maxKey? (keys : KeyMap) : lastKey? keys = keys.maxKey? :=
  Std.ExtTreeMap.maxKey?_eq_getLast?_keys.symm

theorem lastKey?_eq_none {keys : KeyMap} : lastKey? keys = none ↔ keys = ∅ := by
  rw [lastKey?_eq_maxKey?, Std.ExtTreeMap.maxKey?_eq_none_iff]

/-- The last key is there, and no key is larger. -/
theorem lastKey?_eq_some {keys : KeyMap} {k : Nat} :
    lastKey? keys = some k ↔ k ∈ keys ∧ ∀ k' ∈ keys, k' ≤ k := by
  rw [lastKey?_eq_maxKey?, Std.ExtTreeMap.maxKey?_eq_some_iff_mem_and_forall]
  simp [Nat.isLE_compare]

namespace DomainKeyMap

/-- The key is in the map. -/
def Holds (map : DomainKeyMap) (domainId keyId : Nat) : Prop := keyId ∈ map.at' domainId

variable {map : DomainKeyMap} {d d' k k' : Nat} {t : Int}

theorem at'_insert (keys : KeyMap) :
    at' (map.insert d keys) d' = if d = d' then keys else map.at' d' := by
  unfold at'
  rw [Std.ExtTreeMap.getD_insert]
  by_cases h : d = d'
  · subst h
    simp
  · rw [if_neg h, if_neg (by simpa using h)]

@[simp] theorem at'_touch : (map.touch d).at' d' = map.at' d' := by
  unfold at' touch
  rw [Std.ExtTreeMap.getD_insertIfNew]
  split
  next h =>
    obtain ⟨heq, hnot⟩ := h
    have : d = d' := by simpa using heq
    subst this
    exact (Std.ExtTreeMap.getD_eq_fallback hnot).symm
  next => rfl

@[simp] theorem at'_dropIfEmpty : (map.dropIfEmpty d).at' d' = map.at' d' := by
  unfold dropIfEmpty
  split
  next hempty =>
    show at' (map.erase d) d' = map.at' d'
    unfold at'
    rw [Std.ExtTreeMap.getD_erase]
    split
    next heq =>
      have : d = d' := by simpa using heq
      subst this
      exact (Std.ExtTreeMap.isEmpty_iff.mp hempty).symm
    next => rfl
  next => rfl

theorem holds_addKey : (map.addKey d k t).Holds d' k' ↔ (d = d' ∧ k = k') ∨ map.Holds d' k' := by
  unfold Holds addKey
  rw [at'_insert]
  by_cases h : d = d'
  · subst h
    simp [Std.ExtTreeMap.mem_insertIfNew]
  · simp [h]

theorem holds_setTime : (map.setTime d k t).Holds d' k' ↔ (d = d' ∧ k = k') ∨ map.Holds d' k' := by
  unfold Holds setTime
  rw [at'_insert]
  by_cases h : d = d'
  · subst h
    simp [Std.ExtTreeMap.mem_insert]
  · simp [h]

theorem holds_eraseKey :
    (map.eraseKey d k).Holds d' k' ↔ ¬ (d = d' ∧ k = k') ∧ map.Holds d' k' := by
  unfold Holds eraseKey
  rw [at'_insert]
  by_cases h : d = d'
  · subst h
    simp [Std.ExtTreeMap.mem_erase]
  · simp [h]

@[simp] theorem holds_touch : (map.touch d).Holds d' k' ↔ map.Holds d' k' := by
  unfold Holds
  rw [at'_touch]

@[simp] theorem holds_dropIfEmpty : (map.dropIfEmpty d).Holds d' k' ↔ map.Holds d' k' := by
  unfold Holds
  rw [at'_dropIfEmpty]

theorem Holds.mem (h : map.Holds d k) : d ∈ map := by
  by_contra hnot
  have : map.at' d = ∅ := Std.ExtTreeMap.getD_eq_fallback hnot
  rw [Holds, this] at h
  simp at h

theorem Holds.not_isEmpty (h : map.Holds d k) : map.isEmpty = false := by
  cases hempty : map.isEmpty with
  | false => rfl
  | true =>
    have hmem := h.mem
    rw [Std.ExtTreeMap.isEmpty_iff.mp hempty] at hmem
    simp at hmem

theorem holds_lastKey? (h : lastKey? (map.at' d) = some k) : map.Holds d k :=
  (lastKey?_eq_some.mp h).1

/-- Touching a domain that is there changes nothing. -/
theorem touch_of_mem (h : d ∈ map) : map.touch d = map := by
  refine Std.ExtTreeMap.ext_getElem? fun a => ?_
  unfold touch
  rw [Std.ExtTreeMap.getElem?_insertIfNew]
  exact if_neg fun hboth => hboth.2 h

end DomainKeyMap

/-! ## Events -/

def acquired (mode : LockMode) : KmEvent := ⟨.acquire mode, ()⟩

def released (mode : LockMode) : KmEvent := ⟨.release mode, ()⟩

/-- The manager ran a command. -/
def ran (m : OpenbaoKeyManager) (cmd : Command) (reply : Int × Bytes) : KmEvent :=
  ⟨.run m.exePath m.accessToken cmd, reply⟩

/-- What holds after the mutex is given back; a fault gives nothing back. -/
def Unlocking {α : Type} (mode : LockMode) (Q : List KmEvent → Outcome Fault α → Prop) :
    List KmEvent → Outcome Fault α → Prop
  | tr, .ret a => Q (acquired mode :: (tr ++ [released mode])) (.ret a)
  | tr, .halt x => Q (acquired mode :: tr) (.halt x)

theorem wp_locked {α : Type} {mode : LockMode} {body : Km α}
    {Q : List KmEvent → Outcome Fault α → Prop} :
    wp (locked mode body) Q ↔ wp body (Unlocking mode Q) := by
  unfold locked
  rw [Prog.perform_bind, wp_call]
  constructor
  · intro h
    refine wp_mono (wp_bind.mp (h ())) fun tr o ho => ?_
    cases o with
    | ret a => exact ho ()
    | halt x => exact ho
  · intro h _
    refine wp_bind.mpr (wp_mono h fun tr o ho => ?_)
    cases o with
    | ret a => exact fun _ => ho
    | halt x => exact ho

theorem calls_locked {α : Type} {A : Call → Prop} {mode : LockMode} {body : Km α}
    (hacquire : A (.acquire mode)) (hrelease : A (.release mode)) (hbody : Calls A body) :
    Calls A (locked mode body) :=
  ⟨hacquire, fun _ => hbody.bind fun _ => ⟨hrelease, fun _ => trivial⟩⟩

/-! ## What operations leave alone -/

/-- `m'` is `m` but for its map. -/
def SameButMap (m m' : OpenbaoKeyManager) : Prop :=
  m' = { m with domainKeyMap := m'.domainKeyMap }

namespace SameButMap

variable {m m' m'' : OpenbaoKeyManager}

theorem refl (m : OpenbaoKeyManager) : SameButMap m m := rfl

theorem trans (h : SameButMap m m') (h' : SameButMap m' m'') : SameButMap m m'' := by
  unfold SameButMap at h h'
  rw [h] at h'
  exact h'

theorem inited (h : SameButMap m m') : m'.inited = m.inited := by
  have hfield := congrArg OpenbaoKeyManager.inited h
  exact hfield

theorem domainCount (h : SameButMap m m') : m'.domainCount = m.domainCount := by
  have hfield := congrArg OpenbaoKeyManager.domainCount h
  exact hfield

theorem accessToken (h : SameButMap m m') : m'.accessToken = m.accessToken := by
  have hfield := congrArg OpenbaoKeyManager.accessToken h
  exact hfield

theorem exePath (h : SameButMap m m') : m'.exePath = m.exePath := by
  have hfield := congrArg OpenbaoKeyManager.exePath h
  exact hfield

theorem type (h : SameButMap m m') : m'.type = m.type := by
  have hfield := congrArg OpenbaoKeyManager.type h
  exact hfield

end SameButMap

/-- The same of an execution that comes back. -/
def LeavesSameButMap {α : Type} (m : OpenbaoKeyManager) :
    Outcome Fault (α × OpenbaoKeyManager) → Prop
  | .ret (_, m') => SameButMap m m'
  | .halt _ => True

theorem sameButMap_prepareMapLoop (H : KmHost) (pairs : List (Nat × Nat)) :
    ∀ m, wp (prepareMapLoop H m pairs) fun _ o => LeavesSameButMap m o := by
  induction pairs with
  | nil => exact fun m => .refl m
  | cons pair pairs ih =>
    intro m
    refine wp_bind_any (fun _ result => ?_) fun _ _ => trivial
    split
    · exact .refl m
    split
    · exact .refl m
    refine wp_bind_any (fun _ time => ?_) fun _ _ => trivial
    split
    · exact ih { m with domainKeyMap := m.domainKeyMap.addKey pair.1 pair.2 time }
    · exact rfl

theorem sameButMap_prepareMap (H : KmHost) (m : OpenbaoKeyManager) :
    wp (prepareMap H m) fun _ o => LeavesSameButMap m o := by
  refine wp_bind_any (fun _ result => ?_) fun _ _ => trivial
  split
  · exact .refl m
  split
  · exact .refl m
  split
  · exact .refl m
  · exact .refl m
  · refine wp_bind_of (sameButMap_prepareMapLoop H _ m) (fun _ prepared hsame => ?_)
      fun _ _ _ => trivial
    exact hsame

/-- What `Init` leaves: nothing new where the manager was ready, and a manager with a token
where it makes one ready. The tag is never written. -/
def InitLeaves (m : OpenbaoKeyManager) :
    Outcome Fault (Except StdException KeyManagerRC × OpenbaoKeyManager) → Prop
  | .ret (rc, m') => m'.type = m.type ∧ (m.inited = true → m' = m) ∧
    (m.inited = false → rc = .ok .ok → m'.inited = true ∧ m'.accessToken ≠ [])
  | .halt _ => m.inited = false

theorem init_leaves (H : KmHost) (m : OpenbaoKeyManager) (exePath accessToken : Bytes)
    (domainCount : Nat) :
    wp (m.init H exePath accessToken domainCount) fun _ o => InitLeaves m o := by
  -- giving the mutex back changes no manager
  have hunlock : ∀ {tr : List KmEvent} {o : Outcome Fault (Except StdException KeyManagerRC × _)},
      InitLeaves m o → Unlocking .exclusive (fun _ o => InitLeaves m o) tr o := by
    intro tr o h
    cases o with
    | ret a => exact h
    | halt x => exact h
  unfold OpenbaoKeyManager.init
  refine wp_locked.mpr (wp_mono (Q := fun _ o => InitLeaves m o) ?_ fun tr o h => hunlock h)
  by_cases hinited : m.inited = true
  · rw [if_pos hinited]
    exact ⟨rfl, fun _ => rfl, fun hnot => by simp [hinited] at hnot⟩
  rw [if_neg hinited, Prog.perform_bind]
  have hnot : m.inited = false := by simpa using hinited
  have hfailed : ∀ {rc : Except StdException KeyManagerRC} {m' : OpenbaoKeyManager},
      rc ≠ .ok .ok → m'.type = m.type → InitLeaves m (.ret (rc, m')) := fun hrc htype =>
    ⟨htype, fun h => absurd h hinited, fun _ h => absurd h hrc⟩
  intro canonical
  cases canonical with
  | none => exact hfailed (by simp) rfl
  | some exeRealPath =>
    dsimp only
    split
    rotate_left
    · exact hfailed (by simp) rfl
    split
    · exact hfailed (by simp) rfl
    next htoken =>
    split
    · exact hfailed (by simp) rfl
    refine wp_bind_of (sameButMap_prepareMap H _) (fun _ prepared hsame => ?_) fun _ _ _ => hnot
    split
    · exact hfailed (by simp) hsame.type
    split
    · exact hfailed (by simp) hsame.type
    · refine ⟨hsame.type, fun h => absurd h hinited, fun _ _ => ⟨rfl, ?_⟩⟩
      show prepared.2.accessToken ≠ []
      rw [hsame.accessToken]
      exact htoken

/-! ## Operations -/

/-- The traces of `RemoveKey`. -/
inductive RemoveKeyTrace (m : OpenbaoKeyManager) (d k : Nat) :
    List KmEvent → Outcome Fault (KeyManagerRC × OpenbaoKeyManager) → Prop
  | refused {rc : KeyManagerRC} (hrc : rc ≠ .ok) :
      RemoveKeyTrace m d k [acquired .exclusive, released .exclusive] (.ret (rc, m))
  | failed {reply : Int × Bytes} (hdelete : ¬ Succeeded reply) :
      RemoveKeyTrace m d k
        [acquired .exclusive, ran m (.delete d k) reply, released .exclusive] (.ret (.error, m))
  | removed {reply : Int × Bytes} (hholds : m.domainKeyMap.Holds d k) (hdelete : Succeeded reply) :
      RemoveKeyTrace m d k
        [acquired .exclusive, ran m (.delete d k) reply, released .exclusive]
        (.ret (.ok, { m with domainKeyMap := (m.domainKeyMap.eraseKey d k).dropIfEmpty d }))

theorem removeKey_traces (m : OpenbaoKeyManager) (d k : Nat) :
    wp (m.removeKey d k) (RemoveKeyTrace m d k) := by
  unfold OpenbaoKeyManager.removeKey
  rw [wp_locked]
  split
  · exact .refused (by decide)
  split
  · exact .refused (by decide)
  split
  · exact .refused (by decide)
  split
  · exact .refused (by decide)
  split
  · exact .refused (by decide)
  next subMap hdomain =>
  split
  · exact .refused (by decide)
  next hkey =>
  -- the checks have found the key, so the delete is on a key of the map
  have hholds : m.domainKeyMap.Holds d k := by
    unfold DomainKeyMap.Holds DomainKeyMap.at'
    rw [Std.ExtTreeMap.getD_eq_getD_getElem?, hdomain]
    exact not_not.mp hkey
  refine wp_bind.mpr (wp_runCommandAndCheck ?_ ?_ ?_)
  · intro _
    exact .refused (by decide)
  · intro _ reply hs
    exact .removed hholds hs
  · intro _ reply hs
    exact .failed hs

/-- Removing a key that is not there runs nothing and changes nothing. -/
theorem removeKey_traces_of_not_holds {m : OpenbaoKeyManager} {d k : Nat}
    (hnot : ¬ m.domainKeyMap.Holds d k) :
    wp (m.removeKey d k) fun tr o =>
      ∃ rc, tr = [acquired .exclusive, released .exclusive] ∧ o = .ret (rc, m) := by
  unfold OpenbaoKeyManager.removeKey
  rw [wp_locked]
  split
  · exact ⟨_, rfl, rfl⟩
  split
  · exact ⟨_, rfl, rfl⟩
  split
  · exact ⟨_, rfl, rfl⟩
  split
  · exact ⟨_, rfl, rfl⟩
  split
  · exact ⟨_, rfl, rfl⟩
  next subMap hdomain =>
  rw [if_pos]
  · exact ⟨_, rfl, rfl⟩
  · intro hmem
    refine hnot ?_
    unfold DomainKeyMap.Holds DomainKeyMap.at'
    rw [Std.ExtTreeMap.getD_eq_getD_getElem?, hdomain]
    exact hmem

/-- The id that `GenerateKeyId` gives is new in its domain. -/
theorem generateKeyId_spec {m : OpenbaoKeyManager} {d : Nat}
    (h : (m.generateKeyId d).1.1 = .ok) :
    ¬ m.domainKeyMap.Holds d (m.generateKeyId d).1.2 ∧ (m.generateKeyId d).1.2 ≤ 65535 := by
  unfold OpenbaoKeyManager.generateKeyId at h ⊢
  dsimp only at h ⊢
  by_cases hsize : maxKeyCount ≤ (m.domainKeyMap.at' d).size
  · rw [if_pos hsize] at h
    cases h
  rw [if_neg hsize] at h ⊢
  cases hmax : lastKey? (m.domainKeyMap.at' d) with
  | none =>
    refine ⟨fun hmem => ?_, Nat.zero_le _⟩
    rw [lastKey?_eq_none] at hmax
    rw [DomainKeyMap.Holds, hmax] at hmem
    simp at hmem
  | some maxId =>
    rw [hmax] at h
    dsimp only at h ⊢
    by_cases hle : 65535 ≤ maxId
    · rw [if_pos hle] at h
      cases h
    rw [if_neg hle]
    refine ⟨fun hmem => ?_, by show maxId + 1 ≤ 65535; omega⟩
    -- every id of the domain is at most the largest
    have hlt : maxId + 1 ≤ maxId := (lastKey?_eq_some.mp hmax).2 _ hmem
    omega

theorem generateKeyId_map (m : OpenbaoKeyManager) (d : Nat) :
    (m.generateKeyId d).2 = { m with domainKeyMap := m.domainKeyMap.touch d } := by
  unfold OpenbaoKeyManager.generateKeyId
  dsimp only
  split
  · rfl
  split
  · rfl
  split <;> rfl

/-- `m` with an empty inner map for a domain that had none. -/
def touched (m : OpenbaoKeyManager) (d : Nat) : OpenbaoKeyManager :=
  { m with domainKeyMap := m.domainKeyMap.touch d }

/-- The two flags that `CreateKey` sets. -/
def createFlags : List KeyFlag := [.exportable, .deletionAllowed]

/-- The traces of `CreateKey`. In `noTime` the mutex is acquired a second time. -/
inductive CreateKeyTrace (H : KmHost) (m : OpenbaoKeyManager) (d : Nat) :
    List KmEvent → Outcome Fault ((KeyManagerRC × Nat) × OpenbaoKeyManager) → Prop
  | invalid {rc : KeyManagerRC} (hrc : rc ≠ .ok) :
      CreateKeyTrace H m d [acquired .exclusive, released .exclusive] (.ret ((rc, 0), m))
  | refused {rc : KeyManagerRC} {id : Nat} (hrc : rc ≠ .ok) :
      CreateKeyTrace H m d [acquired .exclusive, released .exclusive]
        (.ret ((rc, id), touched m d))
  | createFailed {id : Nat} {r₁ : Int × Bytes} (h₁ : ¬ Succeeded r₁) :
      CreateKeyTrace H m d [acquired .exclusive, ran m (.create d id) r₁, released .exclusive]
        (.ret ((.error, 0), touched m d))
  | configFailed {id : Nat} {r₁ r₂ : Int × Bytes} (h₁ : Succeeded r₁) (h₂ : ¬ Succeeded r₂) :
      CreateKeyTrace H m d
        [acquired .exclusive, ran m (.create d id) r₁, ran m (.config d id createFlags) r₂,
          released .exclusive]
        (.ret ((.error, 0), touched m d))
  | readFailed {id : Nat} {r₁ r₂ r₃ : Int × Bytes} (h₁ : Succeeded r₁) (h₂ : Succeeded r₂)
      (h₃ : ¬ Succeeded r₃) :
      CreateKeyTrace H m d
        [acquired .exclusive, ran m (.create d id) r₁, ran m (.config d id createFlags) r₂,
          ran m (.read d id) r₃, released .exclusive]
        (.ret ((.error, 0), touched m d))
  | faulted {id : Nat} {r₁ r₂ r₃ : Int × Bytes} {x : Fault} (h₁ : Succeeded r₁) (h₂ : Succeeded r₂)
      (h₃ : Succeeded r₃) (htime : getJsonFieldMaxInt H.json r₃.2 = .error x) :
      CreateKeyTrace H m d
        [acquired .exclusive, ran m (.create d id) r₁, ran m (.config d id createFlags) r₂,
          ran m (.read d id) r₃]
        (.halt x)
  | noTime {id : Nat} {r₁ r₂ r₃ : Int × Bytes} (h₁ : Succeeded r₁) (h₂ : Succeeded r₂)
      (h₃ : Succeeded r₃) (htime : getJsonFieldMaxInt H.json r₃.2 = .ok (-1)) :
      CreateKeyTrace H m d
        [acquired .exclusive, ran m (.create d id) r₁, ran m (.config d id createFlags) r₂,
          ran m (.read d id) r₃, acquired .exclusive, released .exclusive, released .exclusive]
        (.ret ((.error, 0), touched m d))
  | created {id : Nat} {r₁ r₂ r₃ : Int × Bytes} {time : Int} (hvalid : m.validateDomain d = .ok)
      (hnew : ¬ m.domainKeyMap.Holds d id) (hid : id ≤ 65535) (h₁ : Succeeded r₁)
      (h₂ : Succeeded r₂) (h₃ : Succeeded r₃)
      (htime : getJsonFieldMaxInt H.json r₃.2 = .ok time) (hne : time ≠ -1) :
      CreateKeyTrace H m d
        [acquired .exclusive, ran m (.create d id) r₁, ran m (.config d id createFlags) r₂,
          ran m (.read d id) r₃, released .exclusive]
        (.ret ((.ok, id),
          { m with domainKeyMap := (m.domainKeyMap.touch d).addKey d id time }))

theorem commandResult_of_succeeded {reply : Int × Bytes} (h : Succeeded reply) :
    commandResult reply = (.ok, reply.2) := by
  unfold Succeeded commandResult at h
  unfold commandResult
  by_cases hstatus : reply.1 ≠ 0
  · rw [if_pos hstatus] at h
    cases h
  rw [if_neg hstatus] at h ⊢
  by_cases herror : hasError reply.2 = true
  · rw [if_pos herror] at h
    cases h
  rw [if_neg herror]

theorem createKey_traces (H : KmHost) (m : OpenbaoKeyManager) (d : Nat) :
    wp (m.createKey H d) (CreateKeyTrace H m d) := by
  unfold OpenbaoKeyManager.createKey
  rw [wp_locked]
  split
  next hinvalid => exact .invalid hinvalid
  next hvalid =>
  have hvalid : m.validateDomain d = .ok := not_not.mp hvalid
  have htouch : (m.generateKeyId d).2 = touched m d := generateKeyId_map m d
  dsimp only
  rw [htouch]
  split
  next hrefused => exact .refused hrefused
  next hid =>
  obtain ⟨hnew, hle⟩ := generateKeyId_spec (not_not.mp hid)
  refine wp_bind.mpr (wp_runCommandAndCheck ?_ ?_ ?_)
  · intro _
    exact .refused (by decide)
  rotate_left
  · intro _ r₁ h₁
    exact .createFailed h₁
  intro htoken r₁ h₁
  rw [then_ret, if_neg (by decide)]
  refine wp_bind.mpr (wp_runCommandAndCheck ?_ ?_ ?_)
  · intro hnone
    exact absurd hnone htoken
  rotate_left
  · intro _ r₂ h₂
    exact .configFailed h₁ h₂
  intro _ r₂ h₂
  rw [then_ret, if_neg (by decide)]
  refine wp_bind.mpr (wp_runCommandAndGetResult ?_ ?_)
  · intro hnone
    exact absurd hnone htoken
  intro _ r₃
  rw [then_ret]
  split
  next h₃ => exact .readFailed h₁ h₂ h₃
  next h₃ =>
  have h₃ : Succeeded r₃ := not_not.mp h₃
  rw [commandResult_of_succeeded h₃]
  refine wp_ofExcept_bind ?_ ?_
  rotate_left
  · intro x hx
    exact .faulted h₁ h₂ h₃ hx
  intro time htime
  split
  next hminus =>
    -- the new id is not in the map, so the inner call only takes and gives back the mutex
    subst hminus
    have hnot : ¬ (touched m d).domainKeyMap.Holds d (m.generateKeyId d).1.2 := by
      rw [touched, DomainKeyMap.holds_touch]
      exact hnew
    refine wp_bind_of (removeKey_traces_of_not_holds hnot) ?_ ?_
    · intro tr removed h
      obtain ⟨rc, rfl, hret⟩ := h
      obtain rfl := (Outcome.ret.inj hret)
      exact .noTime h₁ h₂ h₃ htime
    · intro tr x h
      obtain ⟨rc, -, hret⟩ := h
      cases hret
  next hne => exact .created hvalid hnew hle h₁ h₂ h₃ htime hne

/-- `CreateKey` leaves the connection to the vault alone. -/
theorem CreateKeyTrace.accessToken {H : KmHost} {m m' : OpenbaoKeyManager} {d : Nat}
    {tr : List KmEvent} {rc : KeyManagerRC × Nat} (h : CreateKeyTrace H m d tr (.ret (rc, m'))) :
    m'.accessToken = m.accessToken := by
  cases h <;> rfl

/-- The traces of `HandleCommand`. -/
inductive HandleCommandTrace (m : OpenbaoKeyManager) (d k : Nat) :
    List KmEvent → Outcome Fault KeyManagerRC → Prop
  | noToken (htoken : m.accessToken = []) : HandleCommandTrace m d k [] (.ret .error)
  | deleteFailed {r₁ : Int × Bytes} (h₁ : ¬ Succeeded r₁) :
      HandleCommandTrace m d k [ran m (.delete d k) r₁] (.ret .error)
  | createFailed {r₁ r₂ : Int × Bytes} (h₁ : Succeeded r₁) (h₂ : ¬ Succeeded r₂) :
      HandleCommandTrace m d k [ran m (.delete d k) r₁, ran m (.create d k) r₂] (.ret .error)
  | configFailed {r₁ r₂ r₃ : Int × Bytes} (h₁ : Succeeded r₁) (h₂ : Succeeded r₂)
      (h₃ : ¬ Succeeded r₃) :
      HandleCommandTrace m d k
        [ran m (.delete d k) r₁, ran m (.create d k) r₂, ran m (.config d k [.deletionAllowed]) r₃]
        (.ret .error)
  | remade {r₁ r₂ r₃ : Int × Bytes} (h₁ : Succeeded r₁) (h₂ : Succeeded r₂) (h₃ : Succeeded r₃) :
      HandleCommandTrace m d k
        [ran m (.delete d k) r₁, ran m (.create d k) r₂, ran m (.config d k [.deletionAllowed]) r₃]
        (.ret .ok)

theorem handleCommand_traces (m : OpenbaoKeyManager) (d k : Nat) :
    wp (m.handleCommand d k) (HandleCommandTrace m d k) := by
  unfold OpenbaoKeyManager.handleCommand
  refine wp_bind.mpr (wp_runCommandAndCheck ?_ ?_ ?_)
  · intro htoken
    exact .noToken htoken
  rotate_left
  · intro _ r₁ h₁
    exact .deleteFailed h₁
  intro htoken r₁ h₁
  rw [then_ret, if_neg (by decide)]
  refine wp_bind.mpr (wp_runCommandAndCheck ?_ ?_ ?_)
  · intro hnone
    exact absurd hnone htoken
  rotate_left
  · intro _ r₂ h₂
    exact .createFailed h₁ h₂
  intro _ r₂ h₂
  rw [then_ret, if_neg (by decide)]
  refine wp_bind.mpr (wp_runCommandAndCheck ?_ ?_ ?_)
  · intro hnone
    exact absurd hnone htoken
  · intro _ r₃ h₃
    exact .remade h₁ h₂ h₃
  · intro _ r₃ h₃
    exact .configFailed h₁ h₂ h₃

/-- The traces of `GetLatestKey`. -/
inductive GetLatestKeyTrace (H : KmHost) (m : OpenbaoKeyManager) (d id : Nat) :
    List KmEvent → Outcome Fault ((Bytes × Nat) × OpenbaoKeyManager) → Prop
  | refused (hrefused : m.validateDomain d ≠ .ok ∨ m.domainKeyMap.isEmpty = true) :
      GetLatestKeyTrace H m d id [] (.ret (([], id), m))
  | noKey (hmax : lastKey? (m.domainKeyMap.at' d) = none) :
      GetLatestKeyTrace H m d id [] (.ret (([], id), touched m d))
  | noToken {k : Nat} (htoken : m.accessToken = []) :
      GetLatestKeyTrace H m d id [] (.ret (([], k), touched m d))
  | faulted {k : Nat} {reply : Int × Bytes} {x : Fault} (htoken : m.accessToken ≠ [])
      (hmax : lastKey? (m.domainKeyMap.at' d) = some k)
      (hkey : exportedKey H (commandResult reply) = .error x) :
      GetLatestKeyTrace H m d id [ran m (.exportKey d k) reply] (.halt x)
  | exported {k : Nat} {reply : Int × Bytes} {key : Bytes} (htoken : m.accessToken ≠ [])
      (hmax : lastKey? (m.domainKeyMap.at' d) = some k)
      (hkey : exportedKey H (commandResult reply) = .ok key) :
      GetLatestKeyTrace H m d id [ran m (.exportKey d k) reply]
        (.ret ((key, k), touched m d))

theorem getLatestKey_traces (H : KmHost) (m : OpenbaoKeyManager) (d id : Nat) :
    wp (m.getLatestKey H d id) (GetLatestKeyTrace H m d id) := by
  unfold OpenbaoKeyManager.getLatestKey
  split
  next h => exact .refused (.inl h)
  split
  next h => exact .refused (.inr h)
  dsimp only
  split
  next hmax => exact .noKey hmax
  next k hmax =>
  refine wp_bind.mpr (wp_runCommandAndGetResult ?_ ?_)
  · intro htoken
    exact .noToken htoken
  intro htoken reply
  refine wp_ofExcept_bind ?_ ?_
  · intro key hkey
    exact .exported htoken hmax hkey
  · intro x hx
    exact .faulted htoken hmax hx

/-- What `Encrypt` answers once it has a key. -/
def sealedAnswer (H : KmHost) (w : OpensslWorld) (symAlg : CryptoSymAlg) (d k : Nat)
    (plaintext key : Bytes) : KeyManagerRC × Bytes :=
  let ret := nativeEncrypt H.ciphers w symAlg plaintext key
  if ret.1 ≠ .ok then (.error, [])
  else (.ok, base64Encode (constructCipherHeader symAlg d k ++ ret.2))

/-- The world of a native operation. -/
def crypted (w : OpensslWorld) : KmEvent := ⟨.crypt, w⟩

/-- The traces of `Encrypt`. The last four hold the mutex while `CreateKey` takes it. -/
inductive EncryptTrace (H : KmHost) (m : OpenbaoKeyManager) (symAlg : CryptoSymAlg) (d : Nat)
    (plaintext : Bytes) : List KmEvent → Outcome Fault ((KeyManagerRC × Bytes) × OpenbaoKeyManager) → Prop
  | refused {rc : KeyManagerRC} (hrc : rc ≠ .ok)
      (hargs : m.checkEncryptAndDecryptParams d symAlg ≠ .ok ∨
        (plaintext = [] ∨ plaintextMaxLength ≤ plaintext.length)) :
      EncryptTrace H m symAlg d plaintext [acquired .shared, released .shared]
        (.ret ((rc, []), m))
  | faulted {k : Nat} {reply : Int × Bytes} {x : Fault} (htoken : m.accessToken ≠ [])
      (hmax : lastKey? (m.domainKeyMap.at' d) = some k)
      (hkey : exportedKey H (commandResult reply) = .error x) :
      EncryptTrace H m symAlg d plaintext [acquired .shared, ran m (.exportKey d k) reply] (.halt x)
  | direct {k : Nat} {reply : Int × Bytes} {key : Bytes} {w : OpensslWorld}
      (hparams : m.checkEncryptAndDecryptParams d symAlg = .ok) (htoken : m.accessToken ≠ [])
      (hmax : lastKey? (m.domainKeyMap.at' d) = some k)
      (hkey : exportedKey H (commandResult reply) = .ok key) (hne : key ≠ []) :
      EncryptTrace H m symAlg d plaintext
        [acquired .shared, ran m (.exportKey d k) reply, crypted w, released .shared]
        (.ret (sealedAnswer H w symAlg d k plaintext key, touched m d))
  | createFaulted {id : Nat} {m₁ : OpenbaoKeyManager} {tr tr₁ : List KmEvent} {x : Fault}
      (hparams : m.checkEncryptAndDecryptParams d symAlg = .ok)
      (htext : ¬ (plaintext = [] ∨ plaintextMaxLength ≤ plaintext.length))
      (hfirst : GetLatestKeyTrace H m d 0 tr (.ret (([], id), m₁)))
      (hcreate : CreateKeyTrace H m₁ d tr₁ (.halt x)) :
      EncryptTrace H m symAlg d plaintext (acquired .shared :: (tr ++ tr₁)) (.halt x)
  | createFailed {id : Nat} {rc : KeyManagerRC × Nat} {m₁ m₂ : OpenbaoKeyManager}
      {tr tr₁ : List KmEvent} (hparams : m.checkEncryptAndDecryptParams d symAlg = .ok)
      (htext : ¬ (plaintext = [] ∨ plaintextMaxLength ≤ plaintext.length))
      (hfirst : GetLatestKeyTrace H m d 0 tr (.ret (([], id), m₁)))
      (hcreate : CreateKeyTrace H m₁ d tr₁ (.ret (rc, m₂))) :
      EncryptTrace H m symAlg d plaintext
        (acquired .shared :: (tr ++ (tr₁ ++ [released .shared]))) (.ret ((.error, []), m₂))
  | secondFaulted {id : Nat} {rc : KeyManagerRC × Nat} {m₁ m₂ : OpenbaoKeyManager}
      {tr tr₁ tr₂ : List KmEvent} {x : Fault}
      (hparams : m.checkEncryptAndDecryptParams d symAlg = .ok)
      (htext : ¬ (plaintext = [] ∨ plaintextMaxLength ≤ plaintext.length))
      (hfirst : GetLatestKeyTrace H m d 0 tr (.ret (([], id), m₁)))
      (hcreate : CreateKeyTrace H m₁ d tr₁ (.ret (rc, m₂)))
      (hsecond : GetLatestKeyTrace H m₂ d id tr₂ (.halt x)) :
      EncryptTrace H m symAlg d plaintext (acquired .shared :: (tr ++ (tr₁ ++ tr₂))) (.halt x)
  | recreated {id k : Nat} {rc : KeyManagerRC × Nat} {m₁ m₂ m₃ : OpenbaoKeyManager}
      {tr tr₁ tr₂ : List KmEvent} {key : Bytes} {w : OpensslWorld}
      (hparams : m.checkEncryptAndDecryptParams d symAlg = .ok)
      (htext : ¬ (plaintext = [] ∨ plaintextMaxLength ≤ plaintext.length))
      (hfirst : GetLatestKeyTrace H m d 0 tr (.ret (([], id), m₁)))
      (hcreate : CreateKeyTrace H m₁ d tr₁ (.ret (rc, m₂)))
      (hsecond : GetLatestKeyTrace H m₂ d id tr₂ (.ret ((key, k), m₃))) :
      EncryptTrace H m symAlg d plaintext
        (acquired .shared :: (tr ++ (tr₁ ++ (tr₂ ++ [crypted w, released .shared]))))
        (.ret (sealedAnswer H w symAlg d k plaintext key, m₃))

theorem wp_sealText {H : KmHost} {m : OpenbaoKeyManager} {symAlg : CryptoSymAlg} {d k : Nat}
    {plaintext key : Bytes}
    {Q : List KmEvent → Outcome Fault ((KeyManagerRC × Bytes) × OpenbaoKeyManager) → Prop}
    (h : ∀ w, Q [crypted w] (.ret (sealedAnswer H w symAlg d k plaintext key, m))) :
    wp (m.sealText H symAlg d k plaintext key) Q := by
  unfold sealText
  rw [Prog.perform_bind, wp_call]
  intro w
  have hw := h w
  unfold sealedAnswer at hw
  dsimp only at hw ⊢
  split
  next hrc =>
    rw [if_pos hrc] at hw
    exact hw
  next hrc =>
    rw [if_neg hrc] at hw
    exact hw

theorem encrypt_traces (H : KmHost) (m : OpenbaoKeyManager) (symAlg : CryptoSymAlg) (d : Nat)
    (plaintext : Bytes) :
    wp (m.encrypt H symAlg d plaintext) (EncryptTrace H m symAlg d plaintext) := by
  unfold OpenbaoKeyManager.encrypt
  rw [wp_locked]
  split
  next hparams => exact .refused hparams (.inl hparams)
  next hparams =>
  have hparams : m.checkEncryptAndDecryptParams d symAlg = .ok := not_not.mp hparams
  split
  next htext => exact .refused (by decide) (.inr htext)
  next htext =>
  refine wp_bind_of (getLatestKey_traces H m d 0) ?_ ?_
  rotate_left
  · intro tr x hfirst
    cases hfirst with
    | faulted htoken hmax hkey => exact .faulted htoken hmax hkey
  intro tr result hfirst
  obtain ⟨⟨key, id⟩, m₁⟩ := result
  by_cases hkey : key = []
  · -- the rare branch: the mutex is held and `CreateKey` takes it again
    subst hkey
    rw [if_pos rfl]
    refine wp_bind_of (createKey_traces H m₁ d) ?_ ?_
    rotate_left
    · intro tr₁ x hcreate
      exact .createFaulted hparams htext hfirst hcreate
    intro tr₁ result hcreate
    obtain ⟨rc, m₂⟩ := result
    split
    · have := EncryptTrace.createFailed hparams htext hfirst hcreate
      simpa only [Unlocking, wp_ret, List.append_nil, List.append_assoc] using this
    refine wp_bind_of (getLatestKey_traces H m₂ d id) ?_ ?_
    rotate_left
    · intro tr₂ x hsecond
      exact .secondFaulted hparams htext hfirst hcreate hsecond
    intro tr₂ result hsecond
    obtain ⟨⟨key, k⟩, m₃⟩ := result
    refine wp_sealText fun w => ?_
    have := EncryptTrace.recreated (w := w) hparams htext hfirst hcreate hsecond
    simpa only [Unlocking, List.append_assoc, List.cons_append, List.nil_append] using this
  · rw [if_neg hkey]
    cases hfirst with
    | refused h => exact absurd rfl hkey
    | noKey h => exact absurd rfl hkey
    | noToken h => exact absurd rfl hkey
    | exported htoken hmax hexport =>
      exact wp_sealText fun w => .direct hparams htoken hmax hexport hkey

/-- What `Decrypt` checks before it asks for a key. -/
structure Accepts (m : OpenbaoKeyManager) (symAlg : CryptoSymAlg) (d : Nat) (ciphertext : Bytes)
    (header : CipherHeader) : Prop where
  params : m.checkEncryptAndDecryptParams d symAlg = .ok
  parsed : readCipherHeader (bas64DecodeCipherText ciphertext) = some header
  symAlg : header.symAlg = symAlg
  domainId : header.domainId = d
  holds : m.domainKeyMap.Holds d header.keyId

/-- What `Decrypt` answers once it has a key. -/
def openedAnswer (H : KmHost) (w : OpensslWorld) (symAlg : CryptoSymAlg) (ciphertext key : Bytes) :
    KeyManagerRC × Bytes :=
  let ret := nativeDecrypt H.ciphers w symAlg
    ((bas64DecodeCipherText ciphertext).drop maxIndex) key
  if ret.1 ≠ .ok ∨ ret.2 = [] then (.error, []) else (.ok, ret.2)

/-- The traces of `Decrypt`. -/
inductive DecryptTrace (H : KmHost) (m : OpenbaoKeyManager) (symAlg : CryptoSymAlg) (d : Nat)
    (ciphertext : Bytes) : List KmEvent → Outcome Fault (KeyManagerRC × Bytes) → Prop
  | refused {rc : KeyManagerRC} (hrc : rc ≠ .ok)
      (hnot : ∀ header, ¬ Accepts m symAlg d ciphertext header) :
      DecryptTrace H m symAlg d ciphertext [acquired .shared, released .shared] (.ret (rc, []))
  | noToken (htoken : m.accessToken = []) :
      DecryptTrace H m symAlg d ciphertext [acquired .shared, released .shared] (.ret (.error, []))
  | faulted {k : Nat} {reply : Int × Bytes} {x : Fault}
      (hkey : exportedKey H (commandResult reply) = .error x) :
      DecryptTrace H m symAlg d ciphertext [acquired .shared, ran m (.exportKey d k) reply] (.halt x)
  | noKey {header : CipherHeader} {reply : Int × Bytes}
      (haccepts : Accepts m symAlg d ciphertext header)
      (hkey : exportedKey H (commandResult reply) = .ok []) :
      DecryptTrace H m symAlg d ciphertext
        [acquired .shared, ran m (.exportKey d header.keyId) reply, released .shared]
        (.ret (.error, []))
  | opened {header : CipherHeader} {reply : Int × Bytes} {key : Bytes} {w : OpensslWorld}
      (haccepts : Accepts m symAlg d ciphertext header)
      (hkey : exportedKey H (commandResult reply) = .ok key) (hne : key ≠ []) :
      DecryptTrace H m symAlg d ciphertext
        [acquired .shared, ran m (.exportKey d header.keyId) reply, crypted w, released .shared]
        (.ret (openedAnswer H w symAlg ciphertext key))

/-- The end of `Decrypt`, once the header is accepted. -/
theorem vaultDecrypt_traces (H : KmHost) {m : OpenbaoKeyManager} {symAlg : CryptoSymAlg} {d : Nat}
    {ciphertext : Bytes} {header : CipherHeader} (haccepts : Accepts m symAlg d ciphertext header) :
    wp (do
      let vec ← m.vaultDecrypt H symAlg d header.keyId
        ((bas64DecodeCipherText ciphertext).drop maxIndex)
      if vec = [] then .ret (.error, []) else .ret (.ok, vec))
      (Unlocking .shared (DecryptTrace H m symAlg d ciphertext)) := by
  unfold vaultDecrypt
  refine wp_bind.mpr (wp_bind.mpr (wp_runCommandAndGetResult ?_ ?_))
  · intro htoken
    exact .noToken htoken
  intro _ reply
  refine wp_ofExcept_bind (fun key hkey => ?_) fun x hx => .faulted hx
  by_cases hne : key = []
  · subst hne
    rw [if_pos rfl]
    exact .noKey haccepts hkey
  rw [if_neg hne, Prog.perform_bind]
  intro w
  have hopened := DecryptTrace.opened (w := w) haccepts hkey hne
  unfold openedAnswer at hopened
  dsimp only at hopened ⊢
  by_cases hrc : (nativeDecrypt H.ciphers w symAlg
      ((bas64DecodeCipherText ciphertext).drop maxIndex) key).1 ≠ .ok
  · rw [if_pos (.inl hrc)] at hopened
    rw [if_pos hrc]
    exact hopened
  rw [if_neg hrc]
  by_cases hnil : (nativeDecrypt H.ciphers w symAlg
      ((bas64DecodeCipherText ciphertext).drop maxIndex) key).2 = []
  · rw [if_pos (.inr hnil)] at hopened
    show wp (if _ = [] then _ else _) _
    rw [if_pos hnil]
    exact hopened
  · rw [if_neg (not_or.mpr ⟨hrc, hnil⟩)] at hopened
    show wp (if _ = [] then _ else _) _
    rw [if_neg hnil]
    exact hopened

theorem decrypt_traces (H : KmHost) (m : OpenbaoKeyManager) (symAlg : CryptoSymAlg) (d : Nat)
    (ciphertext : Bytes) :
    wp (m.decrypt H symAlg d ciphertext) (DecryptTrace H m symAlg d ciphertext) := by
  unfold OpenbaoKeyManager.decrypt
  rw [wp_locked]
  split
  next hparams => exact .refused hparams fun _ h => hparams h.params
  next hparams =>
  have hparams : m.checkEncryptAndDecryptParams d symAlg = .ok := not_not.mp hparams
  dsimp only
  by_cases hraw : bas64DecodeCipherText ciphertext = []
  · rw [if_pos hraw]
    refine .refused (by decide) fun _ h => ?_
    have hparsed := h.parsed
    rw [hraw] at hparsed
    cases hparsed
  rw [if_neg hraw]
  unfold parseCipherHeader
  cases hread : readCipherHeader (bas64DecodeCipherText ciphertext) with
  | none =>
    refine .refused (by decide) fun _ h => ?_
    have hparsed := h.parsed
    rw [hread] at hparsed
    cases hparsed
  | some header =>
    -- any header that is accepted is this one
    have hrefused : ∀ {rc : KeyManagerRC}, rc ≠ .ok → ¬ Accepts m symAlg d ciphertext header →
        Unlocking .shared (DecryptTrace H m symAlg d ciphertext) [] (.ret (rc, [])) := by
      intro rc hrc hnot
      refine .refused hrc fun header' h => ?_
      obtain rfl : header' = header := Option.some.inj (h.parsed.symm.trans hread)
      exact hnot h
    dsimp only
    split
    next hrc =>
      refine hrefused hrc fun h => ?_
      rw [h.symAlg, h.domainId] at hrc
      exact hrc hparams
    split
    next halg => exact hrefused (by decide) fun h => halg h.symAlg
    next halg =>
    split
    next hdomain => exact hrefused (by decide) fun h => hdomain h.domainId
    next hdomain =>
    split
    next hholds => exact hrefused (by decide) fun h => hholds h.holds
    next hholds =>
    have halg : header.symAlg = symAlg := not_not.mp halg
    have hdomain : header.domainId = d := not_not.mp hdomain
    rw [halg, hdomain]
    exact vaultDecrypt_traces H ⟨hparams, hread, halg, hdomain, not_not.mp hholds⟩

/-! ## The calls of an automatic update -/

/-- Calls among which a key may be deleted, made anew and read. -/
structure AllowsUpdate (A : Call → Prop) (d k : Nat) : Prop where
  delete : ∀ exePath token, A (.run exePath token (.delete d k))
  create : ∀ exePath token, A (.run exePath token (.create d k))
  config : ∀ exePath token, A (.run exePath token (.config d k [.deletionAllowed]))
  read : ∀ exePath token, A (.run exePath token (.read d k))

section Updates

variable {A : Call → Prop} {d : Nat}

theorem calls_handleCommand {k : Nat} (h : AllowsUpdate A d k) (m : OpenbaoKeyManager) :
    Calls A (m.handleCommand d k) := by
  refine (calls_runCommandAndCheck _ _ _ (h.delete _ _)).bind fun ret => ?_
  split
  · trivial
  refine (calls_runCommandAndCheck _ _ _ (h.create _ _)).bind fun ret => ?_
  split
  · trivial
  refine (calls_runCommandAndCheck _ _ _ (h.config _ _)).bind fun ret => ?_
  split <;> trivial

theorem calls_autoUpdateLoop {H : KmHost} {lead : Nat} {time : Int} {keys : List (Nat × Int)} :
    (∀ key ∈ keys, AllowsUpdate A d key.1) →
      ∀ m, Calls A (OpenbaoKeyManager.autoUpdateLoop H d lead time m keys) := by
  induction keys with
  | nil => exact fun _ m => trivial
  | cons key keys ih =>
    intro hkeys m
    have hkey : AllowsUpdate A d key.1 := hkeys key List.mem_cons_self
    have hrest : ∀ key ∈ keys, AllowsUpdate A d key.1 := fun key' hmem =>
      hkeys key' (List.mem_cons_of_mem _ hmem)
    unfold OpenbaoKeyManager.autoUpdateLoop
    split
    · trivial
    split
    · trivial
    split
    rotate_left
    · exact ih hrest m
    refine (calls_handleCommand hkey m).bind fun ret => ?_
    split
    · trivial
    refine (calls_runCommandAndGetResult _ _ _ (hkey.read _ _)).bind fun result => ?_
    split
    · trivial
    refine (calls_ofExcept _).bind fun timeTmp => ?_
    split
    · trivial
    · exact ih hrest _

end Updates

end CdfCrypto.KeyManagement
