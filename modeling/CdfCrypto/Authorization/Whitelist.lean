import CdfCrypto.Utils.Json
import Std.Data.ExtTreeMap

/-!
# `WhitelistAuthorization`

A whitelist is a map from user names to whether they are allowed, filled from a
JSON array of `{"user": .., "allow": ..}` objects. `Initialize` inserts each
name as it walks the array, so a refusal further down leaves the names before it
in the list (`atomic_iff`), and it takes the names as C strings, so a name with a
NUL in it stands for its part before the NUL (`exact_iff`).

The text itself is handed to the parser as a C string too: what the parser sees
of a text with a NUL is the part before it.
-/

namespace CdfCrypto.Authorization

/-- The result codes the class uses. -/
inductive AuthRC
  | ok
  | failed
  | confConflict
  | paramError
  | confFormatInvalid
  deriving DecidableEq, Repr

/-- `MAX_ALLOWED_NAME_LENGTH` -/
def maxAllowedNameLength : Nat := 1024 * 1024

/-- `MAX_ALLOWED_CONF_LENGTH` -/
def maxAllowedConfLength : Nat := 1024 * 1024 * 100

abbrev Whitelist := Std.ExtTreeMap Bytes Bool compare

structure WhitelistAuthorization where
  whitelist : Whitelist := ∅

/-- What `Initialize` asks of the text before it looks at the nodes. -/
def readConf (J : RapidJson) (conf : Bytes) : Except AuthRC (List JsonValue) :=
  if maxAllowedConfLength < conf.length then .error .paramError
  else if conf = [] then .error .confFormatInvalid
  else
    match J.parse (cstr conf) with
    | none => .error .confFormatInvalid
    | some document =>
      match document.elements? with
      | none => .error .confFormatInvalid
      | some nodes => .ok nodes

/-- One node: an object with a string `user` and a Boolean `allow`. The checks in between
all answer `CONF_FORMAT_INVALID`. -/
def readNode (node : JsonValue) : Option (Bytes × Bool) :=
  match node.members? with
  | none => none
  | some members =>
    match (findMember members (ascii "user")).bind JsonValue.cstr? with
    | none => none
    | some userName =>
      match (findMember members (ascii "allow")).bind JsonValue.bool? with
      | none => none
      | some access => some (userName, access)

/-- The loop of `Initialize`. -/
def addNodes : Whitelist → List JsonValue → AuthRC × Whitelist
  | whitelist, [] => (.ok, whitelist)
  | whitelist, node :: nodes =>
    match readNode node with
    | none => (.confFormatInvalid, whitelist)
    | some (userName, access) =>
      match whitelist[userName]? with
      | none => addNodes (whitelist.insert userName access) nodes
      | some known => if known ≠ access then (.confConflict, whitelist) else addNodes whitelist nodes

namespace WhitelistAuthorization

/-- `Initialize` -/
def initializeFrom (J : RapidJson) (a : WhitelistAuthorization) (conf : Bytes) :
    AuthRC × WhitelistAuthorization :=
  match readConf J conf with
  | .error rc => (rc, a)
  | .ok nodes => ((addNodes a.whitelist nodes).1, { a with whitelist := (addNodes a.whitelist nodes).2 })

/-- `CheckPermission`; `resource` and `operation` are not looked at. -/
def checkPermission (a : WhitelistAuthorization) (principal : Bytes) : AuthRC :=
  if principal = [] ∨ maxAllowedNameLength < principal.length then .paramError
  else
    match a.whitelist[principal]? with
    | some access => if access then .ok else .failed
    | none => .failed

def unInitialize (_ : WhitelistAuthorization) : AuthRC × WhitelistAuthorization := (.ok, {})

def getAllPrincipals (a : WhitelistAuthorization) : AuthRC × List Bytes := (.ok, a.whitelist.keys)

end WhitelistAuthorization

/-! ## The loop -/

variable {whitelist : Whitelist} {nodes : List JsonValue}

/-- The node says what the list says already. -/
def Listed (whitelist : Whitelist) (node : JsonValue) : Prop :=
  ∃ userName access, readNode node = some (userName, access) ∧ whitelist[userName]? = some access

/-- The node has a name that the list does not have. -/
def Brings (whitelist : Whitelist) (node : JsonValue) : Prop :=
  ∃ userName access, readNode node = some (userName, access) ∧ whitelist[userName]? = none

/-- The first node that is not listed already brings a new name. -/
inductive BringsFirst (whitelist : Whitelist) : List JsonValue → Prop
  | here {node : JsonValue} {nodes : List JsonValue} (hbrings : Brings whitelist node) :
      BringsFirst whitelist (node :: nodes)
  | later {node : JsonValue} {nodes : List JsonValue} (hlisted : Listed whitelist node)
      (hrest : BringsFirst whitelist nodes) : BringsFirst whitelist (node :: nodes)

/-- Every node can be read, and all say the same of a name, with the list. -/
structure Agree (whitelist : Whitelist) (nodes : List JsonValue) : Prop where
  readable : ∀ node ∈ nodes, (readNode node).isSome
  withList : ∀ node ∈ nodes, ∀ userName access known, readNode node = some (userName, access) →
    whitelist[userName]? = some known → known = access
  eachOther : ∀ node ∈ nodes, ∀ node' ∈ nodes, ∀ userName access access',
    readNode node = some (userName, access) → readNode node' = some (userName, access') →
      access = access'

/-- Reading back a list with one more name. -/
theorem getElem?_insertName (userName name : Bytes) (access : Bool) :
    (whitelist.insert userName access)[name]? =
      if userName = name then some access else whitelist[name]? := by
  rw [Std.ExtTreeMap.getElem?_insert]
  by_cases h : userName = name
  · rw [if_pos h, if_pos (by rw [h]; exact Std.ReflCmp.compare_self)]
  · rw [if_neg h, if_neg (fun heq => h (Std.LawfulEqCmp.eq_of_compare heq))]

/-- A name that is in the list stays there as it is. -/
theorem getElem?_addNodes {userName : Bytes} {access : Bool}
    (h : whitelist[userName]? = some access) :
    (addNodes whitelist nodes).2[userName]? = some access := by
  induction nodes generalizing whitelist with
  | nil => exact h
  | cons node nodes ih =>
    unfold addNodes
    split
    · exact h
    next userName' access' _ =>
      split
      next hnew =>
        refine ih ?_
        rw [getElem?_insertName]
        split
        next heq =>
          rw [heq, h] at hnew
          cases hnew
        next => exact h
      · split
        · exact h
        · exact ih h

/-- A node says one thing. -/
theorem readNode_inj {node : JsonValue} {userName userName' : Bytes} {access access' : Bool}
    (h : readNode node = some (userName, access)) (h' : readNode node = some (userName', access')) :
    userName = userName' ∧ access = access' :=
  Prod.mk.inj (Option.some.inj (h.symm.trans h'))

/-- The loop does not get past a node it cannot read. -/
theorem not_bringsFirst_of_unreadable {node : JsonValue} (hread : readNode node = none) :
    ¬BringsFirst whitelist (node :: nodes) := by
  intro h
  cases h with
  | here hbrings =>
    obtain ⟨userName, access, hsome, -⟩ := hbrings
    rw [hread] at hsome
    cases hsome
  | later hlisted _ =>
    obtain ⟨userName, access, hsome, -⟩ := hlisted
    rw [hread] at hsome
    cases hsome

/-- Past a name that the list has, the loop gets to a new one where the node says the same. -/
theorem bringsFirst_cons {node : JsonValue} {userName : Bytes} {access known : Bool}
    (hread : readNode node = some (userName, access)) (hold : whitelist[userName]? = some known) :
    BringsFirst whitelist (node :: nodes) ↔ known = access ∧ BringsFirst whitelist nodes := by
  constructor
  · intro h
    cases h with
    | here hbrings =>
      obtain ⟨userName', access', hsome, hnone⟩ := hbrings
      obtain ⟨rfl, rfl⟩ := readNode_inj hread hsome
      rw [hold] at hnone
      cases hnone
    | later hlisted hrest =>
      obtain ⟨userName', access', hsome, hsame⟩ := hlisted
      obtain ⟨rfl, rfl⟩ := readNode_inj hread hsome
      exact ⟨Option.some.inj (hold.symm.trans hsame), hrest⟩
  · intro h
    obtain ⟨rfl, hrest⟩ := h
    exact .later ⟨userName, known, hread, hold⟩ hrest

/-- **Where the loop changes the list**: where it gets as far as a new name. -/
theorem addNodes_eq_iff : (addNodes whitelist nodes).2 = whitelist ↔ ¬BringsFirst whitelist nodes := by
  induction nodes with
  | nil => exact ⟨fun _ h => (nomatch h), fun _ => rfl⟩
  | cons node nodes ih =>
    unfold addNodes
    cases hread : readNode node with
    | none => exact ⟨fun _ => not_bringsFirst_of_unreadable hread, fun _ => rfl⟩
    | some entry =>
      obtain ⟨userName, access⟩ := entry
      dsimp only
      cases hold : whitelist[userName]? with
      | none =>
        -- a new name stays, and the list is no longer the same
        refine ⟨fun heq => ?_, fun h => absurd (.here ⟨userName, access, hread, hold⟩) h⟩
        have hnew : (whitelist.insert userName access)[userName]? = some access :=
          Std.ExtTreeMap.getElem?_insert_self
        have hkept : (addNodes (whitelist.insert userName access) nodes).2[userName]? =
            some access := getElem?_addNodes hnew
        dsimp only at heq
        rw [heq, hold] at hkept
        cases hkept
      | some known =>
        rw [bringsFirst_cons hread hold]
        dsimp only
        by_cases hne : known ≠ access
        · rw [if_pos hne]
          exact ⟨fun _ h => hne h.1, fun _ => rfl⟩
        · rw [if_neg hne, ih, and_iff_right (not_not.mp hne)]

/-- The nodes agree where the first agrees with the list, and the others with both. -/
theorem agree_cons {node : JsonValue} {userName : Bytes} {access : Bool}
    (hread : readNode node = some (userName, access)) :
    Agree whitelist (node :: nodes) ↔
      (∀ known, whitelist[userName]? = some known → known = access) ∧
        Agree (whitelist.insert userName access) nodes := by
  constructor
  · intro h
    refine ⟨fun known => h.withList node List.mem_cons_self _ _ _ hread, ?_, ?_, ?_⟩
    · exact fun n hn => h.readable n (List.mem_cons_of_mem _ hn)
    · intro n hn u b known hn' hknown
      rw [getElem?_insertName] at hknown
      split at hknown
      next heq =>
        subst heq
        rw [← Option.some.inj hknown]
        exact h.eachOther node List.mem_cons_self n (List.mem_cons_of_mem _ hn) _ _ _ hread hn'
      next => exact h.withList n (List.mem_cons_of_mem _ hn) _ _ _ hn' hknown
    · exact fun n hn n' hn' =>
        h.eachOther n (List.mem_cons_of_mem _ hn) n' (List.mem_cons_of_mem _ hn')
  · intro hboth
    obtain ⟨hlist, h⟩ := hboth
    have hself : (whitelist.insert userName access)[userName]? = some access :=
      Std.ExtTreeMap.getElem?_insert_self
    -- a later node of the same name says what the first one says
    have hlater : ∀ n ∈ nodes, ∀ b, readNode n = some (userName, b) → access = b :=
      fun n hn b hn' => h.withList n hn _ _ _ hn' hself
    constructor
    case readable =>
      intro n hn
      rcases List.mem_cons.mp hn with rfl | hn
      · rw [hread]
        rfl
      · exact h.readable n hn
    case withList =>
      intro n hn u b known hn' hknown
      rcases List.mem_cons.mp hn with rfl | hn
      · obtain ⟨rfl, rfl⟩ := readNode_inj hread hn'
        exact hlist known hknown
      · by_cases heq : userName = u
        · subst heq
          exact (hlist known hknown).trans (hlater n hn b hn')
        · refine h.withList n hn _ _ _ hn' ?_
          rw [getElem?_insertName, if_neg heq]
          exact hknown
    case eachOther =>
      intro n hn n' hn' u b b' hb hb'
      rcases List.mem_cons.mp hn with rfl | hmem
      · obtain ⟨rfl, rfl⟩ := readNode_inj hread hb
        rcases List.mem_cons.mp hn' with rfl | hmem'
        · exact (readNode_inj hread hb').2
        · exact hlater n' hmem' b' hb'
      · rcases List.mem_cons.mp hn' with rfl | hmem'
        · obtain ⟨rfl, rfl⟩ := readNode_inj hread hb'
          exact (hlater n hmem b hb).symm
        · exact h.eachOther n hmem n' hmem' u b b' hb hb'

/-- Inserting what is there changes nothing. -/
theorem insert_of_listed {userName : Bytes} {access : Bool}
    (h : whitelist[userName]? = some access) : whitelist.insert userName access = whitelist := by
  refine Std.ExtTreeMap.ext_getElem? fun name => ?_
  rw [getElem?_insertName]
  split
  next heq => rw [← heq, h]
  next => rfl

/-- **When the loop comes to the end**: when the nodes can be read and agree. -/
theorem addNodes_ok_iff : (addNodes whitelist nodes).1 = .ok ↔ Agree whitelist nodes := by
  induction nodes generalizing whitelist with
  | nil => exact ⟨fun _ => ⟨by simp, by simp, by simp⟩, fun _ => rfl⟩
  | cons node nodes ih =>
    unfold addNodes
    cases hread : readNode node with
    | none =>
      refine ⟨fun h => (nomatch h), fun h => ?_⟩
      have hsome := h.readable node List.mem_cons_self
      rw [hread] at hsome
      cases hsome
    | some entry =>
      obtain ⟨userName, access⟩ := entry
      rw [agree_cons hread]
      dsimp only
      cases hold : whitelist[userName]? with
      | none =>
        dsimp only
        rw [ih]
        exact ⟨fun h => ⟨fun _ hsome => (nomatch hsome), h⟩, fun h => h.2⟩
      | some known =>
        dsimp only
        by_cases hne : known ≠ access
        · rw [if_pos hne]
          exact ⟨fun h => (nomatch h), fun h => absurd (h.1 known rfl) hne⟩
        · rw [if_neg hne, ih]
          obtain rfl := not_not.mp hne
          rw [insert_of_listed hold]
          exact ⟨fun h => ⟨fun _ hsome => (Option.some.inj hsome).symm, h⟩, fun h => h.2⟩

/-- **What the loop lists**, where it comes to the end: what was listed and what the nodes say. -/
theorem addNodes_lists (h : (addNodes whitelist nodes).1 = .ok) (name : Bytes) (b : Bool) :
    (addNodes whitelist nodes).2[name]? = some b ↔
      whitelist[name]? = some b ∨ ∃ node ∈ nodes, readNode node = some (name, b) := by
  induction nodes generalizing whitelist with
  | nil => exact ⟨.inl, fun h => h.elim id fun ⟨_, hmem, _⟩ => absurd hmem List.not_mem_nil⟩
  | cons node nodes ih =>
    have hagree := addNodes_ok_iff.mp h
    obtain ⟨⟨userName, access⟩, hread⟩ := Option.isSome_iff_exists.mp
      (hagree.readable node List.mem_cons_self)
    obtain ⟨hlist, hrest⟩ := (agree_cons hread).mp hagree
    -- whatever the list held of the name, the loop goes on with the name in it
    have hstep : (addNodes whitelist (node :: nodes)).2 =
        (addNodes (whitelist.insert userName access) nodes).2 := by
      rw [addNodes, hread]
      dsimp only
      cases hold : whitelist[userName]? with
      | none => rfl
      | some known =>
        obtain rfl := hlist known hold
        dsimp only
        rw [if_neg (not_not.mpr rfl), insert_of_listed hold]
    rw [hstep, ih (addNodes_ok_iff.mpr hrest), getElem?_insertName]
    constructor
    · intro hboth
      obtain hin | ⟨n, hn, hn'⟩ := hboth
      · split at hin
        next heq =>
          subst heq
          obtain rfl := Option.some.inj hin
          exact .inr ⟨node, List.mem_cons_self, hread⟩
        next => exact .inl hin
      · exact .inr ⟨n, List.mem_cons_of_mem _ hn, hn'⟩
    · intro hboth
      obtain hin | ⟨n, hn, hn'⟩ := hboth
      · left
        split
        next heq =>
          subst heq
          rw [hlist b hin]
        next => exact hin
      · rcases List.mem_cons.mp hn with rfl | hn
        · obtain ⟨rfl, rfl⟩ := Prod.mk.inj (Option.some.inj (hread.symm.trans hn'))
          exact .inl (if_pos rfl)
        · exact .inr ⟨n, hn, hn'⟩

/-! ## A refusal -/

open WhitelistAuthorization

/-- A call that refuses leaves the whitelist as it was, and so every later answer. -/
def Atomic (J : RapidJson) (a : WhitelistAuthorization) (conf : Bytes) : Prop :=
  (a.initializeFrom J conf).1 ≠ .ok →
    (a.initializeFrom J conf).2.whitelist = a.whitelist ∧
    (∀ principal, (a.initializeFrom J conf).2.checkPermission principal = a.checkPermission principal) ∧
    (a.initializeFrom J conf).2.getAllPrincipals = a.getAllPrincipals

/-- **Atomic exactly where the first new name is not followed by a refusal.** -/
theorem atomic_iff (J : RapidJson) (a : WhitelistAuthorization) (conf : Bytes) :
    Atomic J a conf ↔ ∀ nodes, readConf J conf = .ok nodes → BringsFirst a.whitelist nodes →
      Agree a.whitelist nodes := by
  unfold Atomic initializeFrom
  cases hconf : readConf J conf with
  | error rc => exact ⟨fun _ _ h => (nomatch h), fun _ _ => ⟨rfl, fun _ => rfl, rfl⟩⟩
  | ok nodes =>
    dsimp only
    constructor
    · intro hall _ hnodes hbrings
      obtain rfl := Except.ok.inj hnodes
      by_contra hnot
      exact addNodes_eq_iff.mp (hall fun hok => hnot (addNodes_ok_iff.mp hok)).1 hbrings
    · intro hall hrefused
      have hsame : (addNodes a.whitelist nodes).2 = a.whitelist := by
        refine addNodes_eq_iff.mpr fun hbrings => hrefused ?_
        exact addNodes_ok_iff.mpr (hall nodes rfl hbrings)
      rw [hsame]
      exact ⟨rfl, fun _ => rfl, rfl⟩

/-- A library that reads one text. -/
def readsAs (text : Bytes) (document : JsonValue) : RapidJson where
  parse s := if s = text then some document else none
  write _ := []

/-- `{"user": user, "allow": allow}` -/
def userNode (user : Bytes) (allow : Bool) : JsonValue :=
  .object [(ascii "user", .string user), (ascii "allow", .bool allow)]

/-- The text of that node. -/
def userText (user allow : Bytes) : Bytes :=
  ascii "\x7b\x22user\x22:\x22" ++ user ++ ascii "\x22,\x22allow\x22:" ++ allow ++ ascii "\x7d"

/-- A user, and then a number where a user belongs. -/
def refusedText : Bytes := ascii "[" ++ userText (ascii "eve") (ascii "true") ++ ascii ",0]"

/-- A refused configuration has let a user in. -/
theorem refused_conf_kept :
    let J := readsAs refusedText (.array [userNode (ascii "eve") true, .int 0])
    (initializeFrom J {} refusedText).1 = .confFormatInvalid ∧
      (initializeFrom J {} refusedText).2.checkPermission (ascii "eve") = .ok ∧
      ¬Atomic J {} refusedText := by
  intro J
  have hrun : (initializeFrom J {} refusedText).1 = .confFormatInvalid := by decide +kernel
  have hlater : (initializeFrom J {} refusedText).2.checkPermission (ascii "eve") = .ok := by
    decide +kernel
  refine ⟨hrun, hlater, fun hatomic => ?_⟩
  have hsame := (hatomic (by rw [hrun]; decide)).2.1 (ascii "eve")
  rw [hlater] at hsame
  exact absurd hsame (by decide +kernel)

/-! ## The users of a list -/

/-- One of the nodes allows exactly this user. -/
def Allows (nodes : List JsonValue) (principal : Bytes) : Prop :=
  ∃ members, .object members ∈ nodes ∧
    findMember members (ascii "user") = some (.string principal) ∧
    findMember members (ascii "allow") = some (.bool true)

/-- What a node that can be read looks like. -/
theorem readNode_eq_some {node : JsonValue} {name : Bytes} {access : Bool} :
    readNode node = some (name, access) ↔ ∃ members user, node = .object members ∧
      findMember members (ascii "user") = some (.string user) ∧ cstr user = name ∧
      findMember members (ascii "allow") = some (.bool access) := by
  constructor
  · intro h
    unfold readNode at h
    split at h
    · cases h
    next members hmembers =>
      split at h
      · cases h
      next userName huser =>
        split at h
        · cases h
        next b hallow =>
          obtain ⟨rfl, rfl⟩ := Prod.mk.inj (Option.some.inj h)
          obtain ⟨user, hfind, hcstr⟩ := Option.bind_eq_some_iff.mp huser
          obtain ⟨allow, hfind', hbool⟩ := Option.bind_eq_some_iff.mp hallow
          cases node <;> cases hmembers
          cases user <;> cases hcstr
          cases allow <;> cases hbool
          exact ⟨_, _, rfl, hfind, rfl, hfind'⟩
  · intro hboth
    obtain ⟨members, user, rfl, huser, rfl, hallow⟩ := hboth
    unfold readNode
    simp only [JsonValue.members?, huser, hallow, Option.bind_some, JsonValue.cstr?,
      JsonValue.bool?]

/-- The loop sees the user's name as a C string. -/
theorem exists_readNode_iff (name : Bytes) :
    (∃ node ∈ nodes, readNode node = some (name, true)) ↔
      ∃ user, Allows nodes user ∧ cstr user = name := by
  constructor
  · intro h
    obtain ⟨node, hmem, hread⟩ := h
    obtain ⟨members, user, rfl, huser, hname, hallow⟩ := readNode_eq_some.mp hread
    exact ⟨user, ⟨members, hmem, huser, hallow⟩, hname⟩
  · intro h
    obtain ⟨user, ⟨members, hmem, huser, hallow⟩, hname⟩ := h
    exact ⟨_, hmem, readNode_eq_some.mpr ⟨members, user, rfl, huser, hname, hallow⟩⟩

/-- What a fresh whitelist answers once it is filled. -/
theorem checkPermission_iff {J : RapidJson} {conf : Bytes} {a : WhitelistAuthorization}
    (hread : readConf J conf = .ok nodes) (hinit : initializeFrom J {} conf = (.ok, a))
    {principal : Bytes} (hne : principal ≠ []) (hlen : principal.length ≤ maxAllowedNameLength) :
    a.checkPermission principal = .ok ↔ ∃ user, Allows nodes user ∧ cstr user = principal := by
  unfold initializeFrom at hinit
  rw [hread] at hinit
  obtain ⟨hok, rfl⟩ := Prod.mk.inj hinit
  have hlists := addNodes_lists hok principal true
  rw [exists_readNode_iff, Std.ExtTreeMap.getElem?_empty] at hlists
  rw [← hlists.trans (or_iff_right nofun), checkPermission,
    if_neg (not_or.mpr ⟨hne, Nat.not_lt.mpr hlen⟩)]
  dsimp only
  cases (addNodes ∅ nodes).2[principal]? with
  | none => exact ⟨fun h => (nomatch h), fun h => (nomatch h)⟩
  | some access => cases access <;> simp

/-- **Exact where no name is cut**: where no allowed user of a length that can be asked for has
a NUL in its name, and each longer one that has stands for a user who is allowed anyway. -/
theorem exact_iff {J : RapidJson} {conf : Bytes} {a : WhitelistAuthorization}
    (hread : readConf J conf = .ok nodes)
    (hinit : initializeFrom J {} conf = (.ok, a)) :
    (∀ principal, principal ≠ [] → principal.length ≤ maxAllowedNameLength →
      (a.checkPermission principal = .ok ↔ Allows nodes principal)) ↔
    ∀ user, Allows nodes user → 0 ∈ user → maxAllowedNameLength < user.length ∧
      (cstr user = [] ∨ maxAllowedNameLength < (cstr user).length ∨ Allows nodes (cstr user)) := by
  constructor
  · intro hexact user huser hzero
    constructor
    · by_contra hlen
      have hne : user ≠ [] := List.ne_nil_of_mem hzero
      -- the user is allowed, but no C string has its name
      have hok := (hexact user hne (by omega)).mpr huser
      obtain ⟨user', -, hcstr⟩ := (checkPermission_iff hread hinit hne (by omega)).mp hok
      rw [← hcstr] at hzero
      exact cstr_ne_zero 0 hzero rfl
    · by_cases hnil : cstr user = []
      · exact .inl hnil
      by_cases hlen : maxAllowedNameLength < (cstr user).length
      · exact .inr (.inl hlen)
      have hok := (checkPermission_iff hread hinit hnil (by omega)).mpr ⟨user, huser, rfl⟩
      exact .inr (.inr ((hexact _ hnil (by omega)).mp hok))
  · intro hcut principal hne hlen
    rw [checkPermission_iff hread hinit hne hlen]
    constructor
    · intro h
      obtain ⟨user, huser, rfl⟩ := h
      by_cases hzero : 0 ∈ user
      · obtain ⟨-, hnil | hlong | hallows⟩ := hcut user huser hzero
        · exact absurd hnil hne
        · exact absurd hlong (Nat.not_lt.mpr hlen)
        · exact hallows
      · rwa [cstr_of_forall_ne fun b hb heq => hzero (heq ▸ hb)]
    · intro hallows
      refine ⟨principal, hallows, cstr_of_forall_ne fun b hb heq => ?_⟩
      exact absurd (hcut principal hallows (heq ▸ hb)).1 (Nat.not_lt.mpr hlen)

/-- The users that such nodes allow. -/
theorem allows_userNodes {users : List (Bytes × Bool)} {principal : Bytes} :
    Allows (users.map fun u => userNode u.1 u.2) principal ↔ (principal, true) ∈ users := by
  constructor
  · intro h
    obtain ⟨members, hmem, huser, hallow⟩ := h
    obtain ⟨⟨user, allow⟩, hin, heq⟩ := List.mem_map.mp hmem
    obtain rfl := JsonValue.object.inj heq
    obtain rfl := JsonValue.string.inj (Option.some.inj huser)
    obtain rfl := JsonValue.bool.inj (Option.some.inj hallow)
    exact hin
  · intro hin
    exact ⟨_, List.mem_map.mpr ⟨_, hin, rfl⟩, rfl, rfl⟩

/-- One user twice, and one who is not allowed. -/
theorem exact_iff_users :
    let nodes := [(ascii "eve", true), (ascii "bob", false), (ascii "eve", true)].map
      fun u => userNode u.1 u.2
    let text := ascii "[" ++ userText (ascii "eve") (ascii "true") ++ ascii "," ++
      userText (ascii "bob") (ascii "false") ++ ascii "," ++
      userText (ascii "eve") (ascii "true") ++ ascii "]"
    let a := (initializeFrom (readsAs text (.array nodes)) {} text).2
    ∀ principal, principal ≠ [] → principal.length ≤ maxAllowedNameLength →
      (a.checkPermission principal = .ok ↔ Allows nodes principal) := by
  intro nodes text a
  have hok : (initializeFrom (readsAs text (.array nodes)) {} text).1 = .ok := by decide +kernel
  have hread : readConf (readsAs text (.array nodes)) text = .ok nodes := rfl
  refine (exact_iff hread (Prod.ext hok rfl)).mpr fun user huser hzero => ?_
  have hin := allows_userNodes.mp huser
  simp only [List.mem_cons, Prod.mk.injEq, List.not_mem_nil, or_false] at hin
  obtain ⟨rfl, -⟩ | ⟨-, h⟩ | ⟨rfl, -⟩ := hin
  · exact absurd hzero (by decide)
  · cases h
  · exact absurd hzero (by decide)

/-- `"admin\u0000x"` lets `admin` in, whom no node names. -/
theorem cut_name_allowed :
    let nodes := [(ascii "admin" ++ 0 :: ascii "x", true)].map fun u => userNode u.1 u.2
    let text := ascii "[" ++ userText (ascii "admin\\u0000x") (ascii "true") ++ ascii "]"
    let a := (initializeFrom (readsAs text (.array nodes)) {} text).2
    (initializeFrom (readsAs text (.array nodes)) {} text).1 = .ok ∧
      a.checkPermission (ascii "admin") = .ok ∧
      ¬∀ principal, principal ≠ [] → principal.length ≤ maxAllowedNameLength →
        (a.checkPermission principal = .ok ↔ Allows nodes principal) := by
  intro nodes text a
  have hadmin : a.checkPermission (ascii "admin") = .ok := by decide +kernel
  refine ⟨by decide +kernel, hadmin, fun hexact => ?_⟩
  have hallows := (hexact (ascii "admin") (by decide) (by decide)).mp hadmin
  exact absurd (allows_userNodes.mp hallows) (by decide)

end CdfCrypto.Authorization
