import CdfCrypto.KeyManagement.Inversion

/-!
# The vault's key store

The vault keeps its keys under their names, each with its versions and two flags.
`TransitStore.apply` is what a command does when it succeeds: `create` makes a key
with both flags clear, `config` sets the flags it names, `delete` needs
`deletion_allowed` and `export` needs `exportable`. `TransitStep` is one event of the
key manager seen from the store; any command may also fail, and then nothing happens.
What a `read` and an `export` print is fixed as far as the key manager reads it.

A key manager with its store makes one `KmStep` for each operation. An operation that
runs into a step without a meaning may leave anything behind.

Seen from one name, events do little: a key that no event deletes keeps its versions
and its flags (`Grows`), and a key becomes exportable only by a `config` that names the flag (`Refuses`).
-/

namespace CdfCrypto.KeyManagement

open Lib OpenbaoKeyManager

/-! ## The store -/

structure KeyVersion where
  number : Nat
  createTime : Int
  material : Bytes

/-- A key of the store. Its versions stand in the order in which they are printed. -/
structure TransitKey where
  versions : List KeyVersion
  nonempty : versions ≠ []
  exportable : Bool
  deletionAllowed : Bool

def TransitKey.setFlag (key : TransitKey) : KeyFlag → TransitKey
  | .exportable => { key with exportable := true }
  | .deletionAllowed => { key with deletionAllowed := true }

/-- The key that `create` makes. -/
def TransitKey.fresh (version : KeyVersion) : TransitKey where
  versions := [version]
  nonempty := by simp
  exportable := false
  deletionAllowed := false

abbrev TransitStore := Std.ExtTreeMap Bytes TransitKey compare

namespace TransitStore

/-- The key of a domain and an id. -/
def key? (store : TransitStore) (d k : Nat) : Option TransitKey := store[keyName d k]?

/-- What a command does when it succeeds, `none` where it cannot. `create` draws `version`. -/
def apply (store : TransitStore) (version : KeyVersion) : Command → Option TransitStore
  | .list => some store
  | .read d k => (store.key? d k).map fun _ => store
  | .create d k => some (store.insertIfNew (keyName d k) (.fresh version))
  | .config d k flags => (store.key? d k).map fun key =>
    store.insert (keyName d k) (flags.foldl TransitKey.setFlag key)
  | .delete d k =>
    match store.key? d k with
    | none => none
    | some key => if key.deletionAllowed then some (store.erase (keyName d k)) else none
  | .exportKey d k =>
    match store.key? d k with
    | none => none
    | some key => if key.exportable then some store else none

end TransitStore

/-! ## What it prints -/

/-- The member of a version in the reply to a `read`. -/
def KeyVersion.timeMember (version : KeyVersion) : Bytes × JsonValue :=
  (decimal version.number, .int version.createTime)

/-- The member of a version in the reply to an `export`. -/
def KeyVersion.keyMember (version : KeyVersion) : Bytes × JsonValue :=
  (decimal version.number, .string (base64Encode version.material))

/-- What the key manager finds in the output of a command that succeeded. -/
def Prints (J : RapidJson) (store : TransitStore) (out : Bytes) : Command → Prop
  | .read d k => ∀ key, store.key? d k = some key →
    parseJsonAndCheck J out = .ok (some (key.versions.map KeyVersion.timeMember))
  | .exportKey d k => ∀ key, store.key? d k = some key →
    parseJsonAndCheck J out = .ok (some (key.versions.map KeyVersion.keyMember))
  | _ => True

/-- One event of the key manager, seen from the store. A command succeeds where
`RunCommandAndGetResult` reports that it did, and has its effect then: one that was killed without a
word is reported so too, with none (`killed_command_succeeds`), and is left out here. -/
def TransitStep (J : RapidJson) (store : TransitStore) : KmEvent → TransitStore → Prop
  | ⟨.run _ _ cmd, reply⟩, store' =>
    if Succeeded reply then
      (∃ version, store.apply version cmd = some store') ∧ Prints J store reply.2 cmd
    else store' = store
  | _, store' => store' = store

/-- Any command may fail. -/
theorem transitStep_failed {J : RapidJson} {store : TransitStore} {exePath token : Bytes}
    {cmd : Command} {reply : Int × Bytes} (hs : ¬ Succeeded reply) :
    TransitStep J store ⟨.run exePath token cmd, reply⟩ store := by
  show if Succeeded reply then (∃ version, store.apply version cmd = some store) ∧
    Prints J store reply.2 cmd else store = store
  rw [if_neg hs]

theorem transitStep_succeeded {J : RapidJson} {store store' : TransitStore} {exePath token : Bytes}
    {cmd : Command} {reply : Int × Bytes} (hs : Succeeded reply) {version : KeyVersion}
    (happly : store.apply version cmd = some store') (hprints : Prints J store reply.2 cmd) :
    TransitStep J store ⟨.run exePath token cmd, reply⟩ store' :=
  (if_pos hs).mpr ⟨⟨version, happly⟩, hprints⟩

/-- The key that the key manager takes out of an export. -/
def TransitKey.exported (key : TransitKey) : Bytes :=
  let text := cstr (base64Encode (key.versions.getLast key.nonempty).material)
  if text = [] then [] else base64Decode text

/-! ## The key manager over its store -/

structure KmSystem where
  manager : OpenbaoKeyManager
  store : TransitStore

/-- One operation with the calls it makes and its answer, if it has one. -/
structure KmCall where
  op : Op
  tr : List KmEvent
  answer : Option Answer

inductive KmStep (H : KmHost) (s : KmSystem) : KmCall → KmSystem → Prop
  | returned {op : Op} {tr : List KmEvent} {answer : Answer} {manager : OpenbaoKeyManager}
      {store : TransitStore} (htr : Traces (op.prog H s.manager) tr (.ret (answer, manager)))
      (hstore : Run (TransitStep H.json) s.store tr store) :
      KmStep H s ⟨op, tr, some answer⟩ ⟨manager, store⟩
  | undefined {op : Op} {tr : List KmEvent} {store : TransitStore} {s' : KmSystem}
      (htr : Traces (op.prog H s.manager) tr (.halt .undefined))
      (hstore : Run (TransitStep H.json) s.store tr store) : KmStep H s ⟨op, tr, none⟩ s'

/-! ## One event, seen from one name -/

/-- The key has been deleted. -/
def Deletes (d k : Nat) : KmEvent → Prop
  | ⟨.run _ _ (.delete d' k'), reply⟩ => (d' = d ∧ k' = k) ∧ Succeeded reply
  | _ => False

/-- `key'` is `key`, with more flags at most. -/
structure TransitKey.Grows (key key' : TransitKey) : Prop where
  versions : key'.versions = key.versions
  exportable : key.exportable = true → key'.exportable = true
  deletionAllowed : key.deletionAllowed = true → key'.deletionAllowed = true

namespace TransitKey

variable {key key' key'' : TransitKey}

theorem Grows.refl (key : TransitKey) : key.Grows key := ⟨rfl, id, id⟩

theorem Grows.trans (h : key.Grows key') (h' : key'.Grows key'') : key.Grows key'' :=
  ⟨h'.versions.trans h.versions, h'.exportable ∘ h.exportable,
    h'.deletionAllowed ∘ h.deletionAllowed⟩

theorem grows_setFlag (key : TransitKey) (flag : KeyFlag) : key.Grows (key.setFlag flag) := by
  cases flag with
  | exportable => exact ⟨rfl, fun _ => rfl, id⟩
  | deletionAllowed => exact ⟨rfl, id, fun _ => rfl⟩

theorem grows_setFlags (flags : List KeyFlag) : ∀ key : TransitKey,
    key.Grows (flags.foldl setFlag key) := by
  induction flags with
  | nil => exact Grows.refl
  | cons flag flags ih => exact fun key => (key.grows_setFlag flag).trans (ih (key.setFlag flag))

theorem Grows.exported (h : key.Grows key') : key'.exported = key.exported := by
  obtain ⟨versions, nonempty, e, a⟩ := key
  obtain ⟨versions', nonempty', e', a'⟩ := key'
  obtain rfl : versions' = versions := h.versions
  rfl

end TransitKey

theorem keyName_inj {d k d' k' : Nat} : keyName d k = keyName d' k' ↔ d = d' ∧ k = k' := by
  constructor
  · exact keyName_injective
  · intro h
    obtain ⟨rfl, rfl⟩ := h
    rfl

section Names

variable {store store' : TransitStore} {d k d' k' : Nat} {key : TransitKey}

theorem key?_insert : TransitStore.key? (store.insert (keyName d k) key) d' k' =
    if d = d' ∧ k = k' then some key else store.key? d' k' := by
  unfold TransitStore.key?
  simp only [Std.ExtTreeMap.getElem?_insert, Std.compare_eq_iff_eq, keyName_inj]

theorem key?_erase : TransitStore.key? (store.erase (keyName d k)) d' k' =
    if d = d' ∧ k = k' then none else store.key? d' k' := by
  unfold TransitStore.key?
  simp only [Std.ExtTreeMap.getElem?_erase, Std.compare_eq_iff_eq, keyName_inj]

theorem key?_insertIfNew : TransitStore.key? (store.insertIfNew (keyName d k) key) d' k' =
    if (d = d' ∧ k = k') ∧ store.key? d k = none then some key else store.key? d' k' := by
  have hmem : keyName d k ∉ store ↔ store.key? d k = none := by
    rw [TransitStore.key?, Std.ExtTreeMap.mem_iff_isSome_getElem?, Option.not_isSome_iff_eq_none]
  unfold TransitStore.key? at hmem ⊢
  simp only [Std.ExtTreeMap.getElem?_insertIfNew, Std.compare_eq_iff_eq, keyName_inj, hmem]

/-- What an event changes. -/
inductive StoreChange (store : TransitStore) : KmEvent → TransitStore → Prop
  | same {ev : KmEvent} (hnot : ∀ d k, ¬ Deletes d k ev) : StoreChange store ev store
  | created {exePath token : Bytes} {d k : Nat} {reply : Int × Bytes} (version : KeyVersion) :
      StoreChange store ⟨.run exePath token (.create d k), reply⟩
        (store.insertIfNew (keyName d k) (.fresh version))
  | configured {exePath token : Bytes} {d k : Nat} {flags : List KeyFlag} {reply : Int × Bytes}
      {key : TransitKey} (hkey : store.key? d k = some key) :
      StoreChange store ⟨.run exePath token (.config d k flags), reply⟩
        (store.insert (keyName d k) (flags.foldl TransitKey.setFlag key))
  | deleted {exePath token : Bytes} {d k : Nat} {reply : Int × Bytes} (hs : Succeeded reply) :
      StoreChange store ⟨.run exePath token (.delete d k), reply⟩ (store.erase (keyName d k))

theorem TransitStep.change {J : RapidJson} {ev : KmEvent} (h : TransitStep J store ev store') :
    StoreChange store ev store' := by
  obtain ⟨c, reply⟩ := ev
  -- an event that is no successful command leaves the store as it is
  have hsame : (∀ d k, ¬ Deletes d k ⟨c, reply⟩) → store' = store →
      StoreChange store ⟨c, reply⟩ store' := by
    intro hnot heq₂
    subst heq₂
    exact .same hnot
  cases c with
  | acquire mode => exact hsame (fun _ _ => id) h
  | release mode => exact hsame (fun _ _ => id) h
  | time => exact hsame (fun _ _ => id) h
  | canonicalPath path => exact hsame (fun _ _ => id) h
  | crypt => exact hsame (fun _ _ => id) h
  | run exePath token cmd =>
    by_cases hs : Succeeded reply
    rotate_left
    · refine hsame (fun d k hdel => ?_) ((if_neg hs).mp h)
      cases cmd with
      | delete d' k' => exact hs hdel.2
      | _ => exact hdel
    obtain ⟨⟨version, happly⟩, -⟩ := (if_pos hs).mp h
    cases cmd with
    | list => exact hsame (fun _ _ => id) (Option.some.inj happly).symm
    | read d k =>
      obtain ⟨_, -, heq⟩ := Option.map_eq_some_iff.mp happly
      exact hsame (fun _ _ => id) heq.symm
    | create d k =>
      obtain rfl := Option.some.inj happly
      exact .created version
    | config d k flags =>
      obtain ⟨key, hkey, rfl⟩ := Option.map_eq_some_iff.mp happly
      exact .configured hkey
    | delete d k =>
      unfold TransitStore.apply at happly
      dsimp only at happly
      split at happly
      · cases happly
      split at happly
      · obtain rfl := Option.some.inj happly
        exact .deleted hs
      · cases happly
    | exportKey d k =>
      unfold TransitStore.apply at happly
      dsimp only at happly
      split at happly
      · cases happly
      split at happly
      · exact hsame (fun _ _ => id) (Option.some.inj happly).symm
      · cases happly

/-- **Events from one name.** A key that is not deleted stays, with its versions and its flags. -/
theorem TransitStep.grows {J : RapidJson} {ev : KmEvent} (h : TransitStep J store ev store')
    (hkey : store.key? d k = some key) (hnot : ¬ Deletes d k ev) :
    ∃ key', store'.key? d k = some key' ∧ key.Grows key' := by
  cases h.change with
  | same _ => exact ⟨key, hkey, .refl key⟩
  | @created _ _ d' k' =>
    refine ⟨key, ?_, .refl key⟩
    rw [key?_insertIfNew, if_neg, hkey]
    -- a key that is there is not made again
    intro hboth
    obtain ⟨⟨rfl, rfl⟩, hnone⟩ := hboth
    cases hnone.symm.trans hkey
  | @configured _ _ d' k' flags _ key' hkey' =>
    rw [key?_insert]
    by_cases heq : d' = d ∧ k' = k
    · obtain ⟨rfl, rfl⟩ := heq
      obtain rfl := Option.some.inj (hkey'.symm.trans hkey)
      rw [if_pos ⟨rfl, rfl⟩]
      exact ⟨_, rfl, TransitKey.grows_setFlags flags _⟩
    · rw [if_neg heq]
      exact ⟨key, hkey, .refl key⟩
  | deleted hs =>
    rw [key?_erase, if_neg fun heq => hnot ⟨heq, hs⟩]
    exact ⟨key, hkey, .refl key⟩

/-- The same along a trace. -/
theorem grows_of_run {J : RapidJson} {tr : List KmEvent} (hrun : Run (TransitStep J) store tr store')
    (hkey : store.key? d k = some key) (hnot : ∀ ev ∈ tr, ¬ Deletes d k ev) :
    ∃ key', store'.key? d k = some key' ∧ key.Grows key' := by
  induction hrun generalizing key with
  | nil store => exact ⟨key, hkey, .refl key⟩
  | cons hstep _ ih =>
    obtain ⟨key₁, hkey₁, hgrows₁⟩ := hstep.grows hkey (hnot _ List.mem_cons_self)
    obtain ⟨key₂, hkey₂, hgrows₂⟩ := ih hkey₁ fun ev hev => hnot ev (List.mem_cons_of_mem _ hev)
    exact ⟨key₂, hkey₂, hgrows₁.trans hgrows₂⟩

/-- A command that would make a key exportable. -/
def SetsExportable : Call → Prop
  | .run _ _ (.config _ _ flags) => .exportable ∈ flags
  | _ => False

/-- The store would not export the key, or has none. -/
def Refuses (store : TransitStore) (d k : Nat) : Prop :=
  ∀ key, store.key? d k = some key → key.exportable = false

theorem exportable_setFlags {flags : List KeyFlag} (h : .exportable ∉ flags) :
    ∀ key : TransitKey, (flags.foldl TransitKey.setFlag key).exportable = key.exportable := by
  induction flags with
  | nil => exact fun key => rfl
  | cons flag flags ih =>
    intro key
    rw [List.foldl_cons, ih fun hmem => h (List.mem_cons_of_mem _ hmem)]
    cases flag with
    | exportable => exact absurd List.mem_cons_self h
    | deletionAllowed => rfl

/-- A key that is not exported stays so until a `config` says otherwise. -/
theorem TransitStep.refuses {J : RapidJson} {ev : KmEvent} (h : TransitStep J store ev store')
    (hrefuses : Refuses store d k) (hnot : ¬ SetsExportable ev.1) : Refuses store' d k := by
  intro key hkey
  cases h.change with
  | same _ => exact hrefuses key hkey
  | created version =>
    rw [key?_insertIfNew] at hkey
    split at hkey
    · obtain rfl := Option.some.inj hkey
      rfl
    · exact hrefuses key hkey
  | @configured _ _ d' k' flags _ key' hkey' =>
    rw [key?_insert] at hkey
    split at hkey
    next heq =>
      obtain ⟨rfl, rfl⟩ := heq
      obtain rfl := Option.some.inj hkey
      rw [exportable_setFlags hnot]
      exact hrefuses key' hkey'
    · exact hrefuses key hkey
  | deleted _ =>
    rw [key?_erase] at hkey
    split at hkey
    · cases hkey
    · exact hrefuses key hkey

theorem refuses_of_run {J : RapidJson} {tr : List KmEvent}
    (hrun : Run (TransitStep J) store tr store') (hrefuses : Refuses store d k)
    (hnot : ∀ ev ∈ tr, ¬ SetsExportable ev.1) : Refuses store' d k := by
  induction hrun with
  | nil store => exact hrefuses
  | cons hstep _ ih =>
    exact ih (hstep.refuses hrefuses (hnot _ List.mem_cons_self)) fun ev hev =>
      hnot ev (List.mem_cons_of_mem _ hev)

/-- A key deleted and never made exportable again. -/
theorem refuses_of_deleted {J : RapidJson} {tr : List KmEvent}
    (hrun : Run (TransitStep J) store tr store') (hdeleted : ∃ ev ∈ tr, Deletes d k ev)
    (hnot : ∀ ev ∈ tr, ¬ SetsExportable ev.1) : Refuses store' d k := by
  obtain ⟨ev, hev, hdel⟩ := hdeleted
  obtain ⟨pre, post, rfl⟩ := List.append_of_mem hev
  obtain ⟨store₁, -, hrest⟩ := Run.split pre _ hrun
  cases hrest with
  | @cons _ store₂ _ _ _ hstep hpost =>
    have hgone : Refuses store₂ d k := by
      intro key hkey
      cases hstep.change with
      | same hsame => exact absurd hdel (hsame d k)
      | created _ => exact hdel.elim
      | configured _ => exact hdel.elim
      | deleted _ =>
        rw [key?_erase, if_pos hdel.1] at hkey
        cases hkey
    refine refuses_of_run hpost hgone fun ev' hev' => hnot ev' ?_
    exact List.mem_append_right _ (List.mem_cons_of_mem _ hev')

end Names

/-! ## What the readers make of it -/

/-- The output drives a reader out of its meaning. -/
def ReaderFaults (H : KmHost) : KmEvent → Prop
  | ⟨.run _ _ (.read _ _), reply⟩ =>
    Succeeded reply ∧ ∃ x, getJsonFieldMaxInt H.json reply.2 = .error x
  | ⟨.run _ _ (.exportKey _ _), reply⟩ => ∃ x, exportedKey H (commandResult reply) = .error x
  | _ => False

theorem maxIntLoop_ok {keys : List (Bytes × JsonValue)} (members : List (Bytes × JsonValue)) :
    ∀ ret, (∀ member ∈ members, ∃ value, findMember keys (cstr member.1) = some value) →
      ∃ time, maxIntLoop keys members ret = .ok time := by
  induction members with
  | nil => exact fun ret _ => ⟨ret, rfl⟩
  | cons member members ih =>
    intro ret hfound
    obtain ⟨value, hvalue⟩ := hfound _ List.mem_cons_self
    unfold maxIntLoop
    rw [hvalue]
    dsimp only
    split
    · exact ⟨-1, rfl⟩
    · exact ih _ fun member' hmem => hfound _ (List.mem_cons_of_mem _ hmem)

/-- The reader of times finds each version again under its number. -/
theorem getJsonFieldMaxInt_ok {J : RapidJson} {out : Bytes} {versions : List KeyVersion}
    (h : parseJsonAndCheck J out = .ok (some (versions.map KeyVersion.timeMember))) :
    ∃ time, getJsonFieldMaxInt J out = .ok time := by
  unfold getJsonFieldMaxInt
  rw [h]
  refine maxIntLoop_ok _ _ fun member hmem => ?_
  obtain ⟨version, hversion, rfl⟩ := List.mem_map.mp hmem
  have hcstr : cstr version.timeMember.1 = version.timeMember.1 :=
    cstr_of_forall_ne fun b hb => (isDigit_spec b (isDigit_of_mem_decimal hb)).2
  rw [hcstr]
  refine Option.isSome_iff_exists.mp ?_
  unfold findMember
  rw [List.lookup_isSome_iff]
  exact ⟨_, hmem, by simp⟩

/-- A failed export is not read at all. -/
theorem exportedKey_of_not_succeeded {H : KmHost} {reply : Int × Bytes} (hs : ¬ Succeeded reply) :
    exportedKey H (commandResult reply) = .ok [] :=
  if_pos hs

/-- An export that succeeds gives the material of the last version printed. -/
theorem TransitStep.exported {H : KmHost} {store store' : TransitStore} {exePath token : Bytes}
    {d k : Nat} {reply : Int × Bytes}
    (h : TransitStep H.json store ⟨.run exePath token (.exportKey d k), reply⟩ store')
    (hs : Succeeded reply) :
    ∃ key, store.key? d k = some key ∧ key.exportable = true ∧
      exportedKey H (commandResult reply) = .ok key.exported := by
  obtain ⟨⟨version, happly⟩, hprints⟩ := (if_pos hs).mp h
  unfold TransitStore.apply at happly
  dsimp only at happly
  split at happly
  · cases happly
  next key hkey =>
  split at happly
  rotate_left
  · cases happly
  next hexportable =>
  refine ⟨key, hkey, hexportable, ?_⟩
  rw [commandResult_of_succeeded hs]
  have hlast : (key.versions.map KeyVersion.keyMember).getLast? =
      some (key.versions.getLast key.nonempty).keyMember := by
    rw [List.getLast?_map, List.getLast?_eq_some_getLast key.nonempty]
    rfl
  unfold exportedKey getJsonFieldAsStr
  rw [if_neg (not_not.mpr rfl), hprints key hkey]
  dsimp only [bind, Except.bind]
  rw [hlast]
  rfl

theorem TransitStep.not_readerFaults {H : KmHost} {store store' : TransitStore} {ev : KmEvent}
    (h : TransitStep H.json store ev store') : ¬ ReaderFaults H ev := by
  intro hfaults
  unfold ReaderFaults at hfaults
  split at hfaults
  next exePath token d k reply =>
    obtain ⟨hs, x, hx⟩ := hfaults
    obtain ⟨⟨version, happly⟩, hprints⟩ := (if_pos hs).mp h
    obtain ⟨key, hkey, -⟩ := Option.map_eq_some_iff.mp happly
    obtain ⟨time, htime⟩ := getJsonFieldMaxInt_ok (hprints key hkey)
    cases hx.symm.trans htime
  next exePath token d k reply =>
    obtain ⟨x, hx⟩ := hfaults
    by_cases hs : Succeeded reply
    · obtain ⟨key, -, -, hkey⟩ := h.exported hs
      cases hx.symm.trans hkey
    · cases hx.symm.trans (exportedKey_of_not_succeeded hs)
  next => exact hfaults

theorem not_readerFaults_of_run {H : KmHost} {store store' : TransitStore} {tr : List KmEvent}
    (hrun : Run (TransitStep H.json) store tr store') : ∀ ev ∈ tr, ¬ ReaderFaults H ev := by
  induction hrun with
  | nil store => simp
  | cons hstep _ ih =>
    intro ev hev
    rcases List.mem_cons.mp hev with rfl | hev
    · exact hstep.not_readerFaults
    · exact ih ev hev

end CdfCrypto.KeyManagement
