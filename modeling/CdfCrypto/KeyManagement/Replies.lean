import CdfCrypto.KeyManagement.OpenbaoUtils

/-!
# Replies

`ParseJsonAndCheck` looks for `data.keys` in a reply and hands the document on when it has members.
It asks `data` for a member and `keys` for their number without asking whether they are objects,
which rapidjson does not allow (`Fault.undefined`). `GetJsonFieldMaxInt` then goes through the
members, but reads each under its name, as a C string: of members of one name it reads the first,
and a name with a NUL is cut there. `GetJsonFieldAsStr` cuts the string at a NUL too.

What the two should answer is said of the members themselves; they do where the two fields are
objects, the names lead to values that make no difference, and the last string holds no NUL
(`reply_exact`).
-/

namespace CdfCrypto.KeyManagement

/-! ## The members of `data.keys` -/

/-- The first member of that name of an object. -/
def memberOf? (value : JsonValue) (name : Bytes) : Option JsonValue :=
  value.members?.bind fun members => findMember members name

/-- The members of `data.keys`, where it is an object in an object. -/
def keyMembers? (doc : JsonValue) : Option (List (Bytes × JsonValue)) :=
  ((memberOf? doc (ascii "data")).bind fun data => memberOf? data (ascii "keys")).bind
    JsonValue.members?

/-- `data` and `data.keys` are objects if they are there. -/
structure WellShaped (doc : JsonValue) : Prop where
  data : ∀ data, memberOf? doc (ascii "data") = some data → ∃ members, data.members? = some members
  keys : ∀ data keys, memberOf? doc (ascii "data") = some data →
    memberOf? data (ascii "keys") = some keys → ∃ members, keys.members? = some members

/-- A document without the field is of the shape, and has no members. -/
theorem wellShaped_of_absent {doc : JsonValue} (habsent : memberOf? doc (ascii "data") = none) :
    WellShaped doc ∧ keyMembers? doc = none := by
  refine ⟨⟨fun data h => ?_, fun data keys h => ?_⟩, ?_⟩
  · rw [habsent] at h
    cases h
  · rw [habsent] at h
    cases h
  · rw [keyMembers?, habsent]
    rfl

theorem wellShaped_iff {doc data : JsonValue} (hdata : memberOf? doc (ascii "data") = some data) :
    WellShaped doc ↔ (∃ members, data.members? = some members) ∧
      ∀ keys, memberOf? data (ascii "keys") = some keys → ∃ members, keys.members? = some members := by
  constructor
  · intro h
    exact ⟨h.data data hdata, fun keys hkeys => h.keys data keys hdata hkeys⟩
  · intro h
    refine ⟨fun data' hdata' => ?_, fun data' keys hdata' hkeys => ?_⟩
    · obtain rfl := Option.some.inj (hdata.symm.trans hdata')
      exact h.1
    · obtain rfl := Option.some.inj (hdata.symm.trans hdata')
      exact h.2 keys hkeys

theorem memberOf?_eq {value : JsonValue} {members : List (Bytes × JsonValue)}
    (h : value.members? = some members) (name : Bytes) :
    memberOf? value name = findMember members name := by
  rw [memberOf?, h]
  rfl

/-- **The check.** It hands on the members, if there are any, and asks nothing it may not exactly
where the document has the shape. -/
theorem parseJsonAndCheck_eq {J : RapidJson} {text : Bytes} {doc : JsonValue}
    (hparse : J.parse text = some doc) :
    (WellShaped doc → parseJsonAndCheck J text =
      .ok ((keyMembers? doc).bind fun keys => if keys = [] then none else some keys)) ∧
    (¬ WellShaped doc → parseJsonAndCheck J text = .error .undefined) := by
  unfold parseJsonAndCheck
  rw [hparse]
  dsimp only
  cases hmembers : doc.members? with
  | none =>
    have habsent : memberOf? doc (ascii "data") = none := by
      rw [memberOf?, hmembers]
      rfl
    obtain ⟨hshape, hnone⟩ := wellShaped_of_absent habsent
    rw [hnone]
    exact ⟨fun _ => rfl, fun h => absurd hshape h⟩
  | some members =>
    dsimp only
    have hfind := memberOf?_eq hmembers (ascii "data")
    by_cases hempty : members = []
    · obtain ⟨hshape, hnone⟩ := wellShaped_of_absent (hfind.trans (by rw [hempty]; rfl))
      rw [if_pos hempty, hnone]
      exact ⟨fun _ => rfl, fun h => absurd hshape h⟩
    rw [if_neg hempty]
    cases hdata : findMember members (ascii "data") with
    | none =>
      obtain ⟨hshape, hnone⟩ := wellShaped_of_absent (hfind.trans hdata)
      rw [hnone]
      exact ⟨fun _ => rfl, fun h => absurd hshape h⟩
    | some data =>
      have hmember := hfind.trans hdata
      -- what is left to ask is of `data` and its `keys`
      rw [wellShaped_iff hmember, keyMembers?, hmember, Option.bind_some]
      dsimp only
      cases hdataMembers : data.members? with
      | none =>
        refine ⟨fun h => ?_, fun _ => rfl⟩
        obtain ⟨⟨_, hsome⟩, -⟩ := h
        cases hsome
      | some dataMembers =>
        rw [memberOf?_eq hdataMembers]
        dsimp only
        cases hkeys : findMember dataMembers (ascii "keys") with
        | none => exact ⟨fun _ => rfl, fun h => absurd ⟨⟨_, rfl⟩, nofun⟩ h⟩
        | some keys =>
          dsimp only
          rw [Option.bind_some]
          cases hkeyMembers : keys.members? with
          | none =>
            refine ⟨fun h => ?_, fun _ => rfl⟩
            obtain ⟨_, hsome⟩ := h.2 keys rfl
            rw [hkeyMembers] at hsome
            cases hsome
          | some keyMembers =>
            refine ⟨fun _ => ?_, fun h => absurd ⟨⟨_, rfl⟩, fun keys' heq => ?_⟩ h⟩
            · dsimp only
              rw [Option.bind_some]
              by_cases hnil : keyMembers = []
              · rw [if_pos hnil, if_pos hnil]
              · rw [if_neg hnil, if_neg hnil]
            · obtain rfl := Option.some.inj heq
              exact ⟨keyMembers, hkeyMembers⟩

/-! ## The largest number -/

/-- What `GetJsonFieldMaxInt` reads for a member: the first one of its name, cut at a NUL. -/
def lookedUp? (keys : List (Bytes × JsonValue)) (member : Bytes × JsonValue) : Option JsonValue :=
  findMember keys (cstr member.1)

/-- An `int` is read for the member. -/
def ReadsInt (keys : List (Bytes × JsonValue)) (member : Bytes × JsonValue) (n : Int) : Prop :=
  ∃ value, lookedUp? keys member = some value ∧ value.int? = some n

/-- Read in order, there is a value for each member up to the first that is not an `int`. -/
def NoneMissing (keys : List (Bytes × JsonValue)) : List (Bytes × JsonValue) → Prop
  | [] => True
  | member :: members =>
    ∃ value, lookedUp? keys member = some value ∧ (value.int? ≠ none → NoneMissing keys members)

/-- What is read is the value of a member. -/
theorem exists_of_findMember {keys : List (Bytes × JsonValue)} {name : Bytes} {value : JsonValue}
    (h : findMember keys name = some value) : ∃ member ∈ keys, member.2 = value := by
  induction keys with
  | nil => cases h
  | cons member keys ih =>
    rw [findMember, List.lookup_cons] at h
    split at h
    · exact ⟨member, List.mem_cons_self, Option.some.inj h⟩
    · obtain ⟨member', hmem, heq⟩ := ih h
      exact ⟨member', List.mem_cons_of_mem _ hmem, heq⟩

/-- What the loop makes of the members. -/
def LoopReads (keys members : List (Bytes × JsonValue)) (ret : Int) : Except Fault Int → Prop
  | .error _ => ¬ NoneMissing keys members
  | .ok r => NoneMissing keys members ∧
    ((∃ member ∈ members, ∃ value, lookedUp? keys member = some value ∧ value.int? = none) ∧ r = -1 ∨
      (∀ member ∈ members, ∃ n, ReadsInt keys member n) ∧ ret ≤ r ∧
        (∀ member ∈ members, ∀ n, ReadsInt keys member n → n ≤ r) ∧
        (r = ret ∨ ∃ member ∈ members, ReadsInt keys member r))

theorem ReadsInt.unique {keys : List (Bytes × JsonValue)} {member : Bytes × JsonValue} {m n : Int}
    (hm : ReadsInt keys member m) (hn : ReadsInt keys member n) : m = n := by
  obtain ⟨value, hvalue, hm⟩ := hm
  obtain ⟨value', hvalue', hn⟩ := hn
  obtain rfl := Option.some.inj (hvalue.symm.trans hvalue')
  exact Option.some.inj (hm.symm.trans hn)

theorem maxIntLoop_reads {keys : List (Bytes × JsonValue)} (members : List (Bytes × JsonValue)) :
    ∀ ret : Int, LoopReads keys members ret (maxIntLoop keys members ret) := by
  induction members with
  | nil =>
    intro ret
    exact ⟨trivial, .inr ⟨fun _ h => absurd h List.not_mem_nil, Int.le_refl ret,
      fun _ h => absurd h List.not_mem_nil, .inl rfl⟩⟩
  | cons member members ih =>
    intro ret
    unfold maxIntLoop
    split
    next hnone =>
      intro h
      obtain ⟨value, hvalue, -⟩ := h
      rw [lookedUp?, hnone] at hvalue
      cases hvalue
    next value hvalue =>
    split
    next hint =>
      refine ⟨⟨value, hvalue, fun hne => absurd hint hne⟩, .inl ⟨?_, rfl⟩⟩
      exact ⟨member, List.mem_cons_self, value, hvalue, hint⟩
    next tmpInt hint =>
    have hmember : ReadsInt keys member tmpInt := ⟨value, hvalue, hint⟩
    have hreads := ih (if ret < tmpInt then tmpInt else ret)
    match hresult : maxIntLoop keys members (if ret < tmpInt then tmpInt else ret) with
    | .error _ =>
      rw [hresult] at hreads
      intro h
      obtain ⟨value', hvalue', hrest⟩ := h
      obtain rfl := Option.some.inj (Eq.symm (hvalue'.symm.trans hvalue))
      exact hreads (hrest (by rw [hint]; exact Option.some_ne_none tmpInt))
    | .ok r =>
      rw [hresult] at hreads
      obtain ⟨hmissing, hkind⟩ := hreads
      -- stopped further on, or the maximum of this number and the rest
      refine ⟨⟨value, hvalue, fun _ => hmissing⟩, ?_⟩
      rcases hkind with ⟨⟨member', hmem, hnot⟩, rfl⟩ | ⟨hall, hret, hle, hattained⟩
      · exact .inl ⟨⟨member', List.mem_cons_of_mem _ hmem, hnot⟩, rfl⟩
      have hboth : ret ≤ r ∧ tmpInt ≤ r := by
        split at hret <;> omega
      refine .inr ⟨fun member' hmem => ?_, hboth.1, fun member' hmem n hn => ?_, ?_⟩
      · rcases List.mem_cons.mp hmem with rfl | hmem
        · exact ⟨tmpInt, hmember⟩
        · exact hall member' hmem
      · rcases List.mem_cons.mp hmem with rfl | hmem
        · rw [hn.unique hmember]
          exact hboth.2
        · exact hle member' hmem n hn
      · rcases hattained with heq | ⟨member', hmem, hr⟩
        · by_cases hlt : ret < tmpInt
          · rw [if_pos hlt] at heq
            exact .inr ⟨member, List.mem_cons_self, heq ▸ hmember⟩
          · rw [if_neg hlt] at heq
            exact .inl heq
        · exact .inr ⟨member', List.mem_cons_of_mem _ hmem, hr⟩

/-! ## What they should answer -/

/-- The largest value, all of them being numbers. -/
def IsMax (keys : List (Bytes × JsonValue)) (r : Int) : Prop :=
  (∃ member ∈ keys, member.2.int? = some r) ∧
    ∀ member ∈ keys, ∀ n, member.2.int? = some n → n ≤ r

/-- What `GetJsonFieldMaxInt` should return for the members of `data.keys`. -/
structure MaxIntAnswer (keys? : Option (List (Bytes × JsonValue))) (r : Int) : Prop where
  none : (∀ keys, keys? = some keys → keys = []) → r = -1
  nonInt : ∀ keys, keys? = some keys → (∃ member ∈ keys, member.2.int? = Option.none) → r = -1
  max : ∀ keys, keys? = some keys → keys ≠ [] →
    (∀ member ∈ keys, ∃ n, member.2.int? = some n ∧ 0 ≤ n) → IsMax keys r

/-- The string of the last member, empty where it is none. -/
def lastString (keys : List (Bytes × JsonValue)) : Bytes :=
  match keys.getLast? with
  | some (_, .string s) => s
  | _ => []

/-- The names of the members lead to values that make no difference: one for each up to the first
that is not an `int`; if all are `int`s, negative ones where a member has none, and no smaller ones
than the members have where those are not negative. -/
structure LooksUp (keys : List (Bytes × JsonValue)) : Prop where
  reached : NoneMissing keys keys
  nonInt : (∀ member ∈ keys, ∃ n, ReadsInt keys member n) →
    (∃ member ∈ keys, member.2.int? = none) → ∀ member ∈ keys, ∀ n, ReadsInt keys member n → n < 0
  max : (∀ member ∈ keys, ∃ n, ReadsInt keys member n) →
    (∀ member ∈ keys, ∃ n, member.2.int? = some n ∧ 0 ≤ n) →
      ∀ member ∈ keys, ∀ n, member.2.int? = some n →
        ∃ member' ∈ keys, ∃ n', ReadsInt keys member' n' ∧ n ≤ n'

/-- What is read is a member's own, if not this one's. -/
theorem ReadsInt.owned {keys : List (Bytes × JsonValue)} {member : Bytes × JsonValue} {n : Int}
    (h : ReadsInt keys member n) : ∃ owner ∈ keys, owner.2.int? = some n := by
  obtain ⟨value, hvalue, hint⟩ := h
  obtain ⟨owner, howner, rfl⟩ := exists_of_findMember hvalue
  exact ⟨owner, howner, hint⟩

/-- The loop has stopped at a value that is not an `int`. -/
theorem maxIntAnswer_of_stopped {keys : List (Bytes × JsonValue)} (hmissing : NoneMissing keys keys)
    (hstop : ∃ member ∈ keys, ∃ value, lookedUp? keys member = some value ∧ value.int? = none) :
    MaxIntAnswer (some keys) (-1) ↔ LooksUp keys := by
  obtain ⟨member, hmem, value, hvalue, hnot⟩ := hstop
  have hnotAll : ¬ ∀ member ∈ keys, ∃ n, ReadsInt keys member n := by
    intro hall
    obtain ⟨n, value', hvalue', hn⟩ := hall member hmem
    obtain rfl := Option.some.inj (hvalue.symm.trans hvalue')
    rw [hnot] at hn
    cases hn
  constructor
  · exact fun _ => ⟨hmissing, fun h => absurd h hnotAll, fun h => absurd h hnotAll⟩
  · refine fun _ => ⟨fun h => rfl, fun _ _ _ => rfl, fun keys' heq _ hnonneg => ?_⟩
    obtain rfl := Option.some.inj heq
    -- the value is a member's own, so not every member is a number
    obtain ⟨owner, howner, hown⟩ := exists_of_findMember hvalue
    obtain ⟨n, hn, -⟩ := hnonneg owner howner
    rw [hown, hnot] at hn
    cases hn

/-- The loop has read a number for each member. -/
theorem maxIntAnswer_of_read {keys : List (Bytes × JsonValue)} {r : Int} (hne : keys ≠ [])
    (hmissing : NoneMissing keys keys) (hall : ∀ member ∈ keys, ∃ n, ReadsInt keys member n)
    (hret : -1 ≤ r) (hle : ∀ member ∈ keys, ∀ n, ReadsInt keys member n → n ≤ r)
    (hattained : r = -1 ∨ ∃ member ∈ keys, ReadsInt keys member r) :
    MaxIntAnswer (some keys) r ↔ LooksUp keys := by
  constructor
  · intro hanswer
    refine ⟨hmissing, fun _ hnot member hmem n hn => ?_, fun _ hnonneg member hmem n hn => ?_⟩
    · have hr := hanswer.nonInt keys rfl hnot
      have := hle member hmem n hn
      omega
    · -- the answer is a member's number and not negative, so it was read
      obtain ⟨⟨owner, howner, hr⟩, hmax⟩ := hanswer.max keys rfl hne hnonneg
      obtain ⟨n', hn', hpos⟩ := hnonneg owner howner
      obtain rfl : r = n' := Option.some.inj (hr.symm.trans hn')
      obtain heq | ⟨member', hmem', hr'⟩ := hattained
      · omega
      · exact ⟨member', hmem', r, hr', hmax member hmem n hn⟩
  · intro hlook
    refine ⟨fun h => absurd (h keys rfl) hne, fun keys' heq hnot => ?_,
      fun keys' heq _ hnonneg => ?_⟩
    · obtain rfl := Option.some.inj heq
      obtain hr | ⟨member, hmem, hr⟩ := hattained
      · exact hr
      · have := hlook.nonInt hall hnot member hmem r hr
        omega
    · obtain rfl := Option.some.inj heq
      obtain ⟨member, hmem⟩ := List.exists_mem_of_ne_nil keys hne
      obtain ⟨n, hn⟩ := hall member hmem
      obtain ⟨owner, howner, hown⟩ := hn.owned
      obtain ⟨n', hn', hpos⟩ := hnonneg owner howner
      obtain rfl : n = n' := Option.some.inj (hown.symm.trans hn')
      have hbound := hle member hmem n hn
      constructor
      · obtain hr | ⟨member', hmem', hr⟩ := hattained
        · omega
        · exact hr.owned
      · intro member' hmem' m hm
        obtain ⟨member'', hmem'', m', hm', hmm⟩ := hlook.max hall hnonneg member' hmem' m hm
        have := hle member'' hmem'' m' hm'
        omega

/-- **The largest number.** -/
theorem maxIntLoop_exact {keys : List (Bytes × JsonValue)} (hne : keys ≠ []) :
    (∃ r, maxIntLoop keys keys (-1) = .ok r ∧ MaxIntAnswer (some keys) r) ↔ LooksUp keys := by
  have hreads : LoopReads keys keys (-1) (maxIntLoop keys keys (-1)) := maxIntLoop_reads keys (-1)
  match hresult : maxIntLoop keys keys (-1) with
  | .error x =>
    rw [hresult] at hreads
    refine ⟨fun h => ?_, fun h => absurd h.reached hreads⟩
    obtain ⟨r, hr, -⟩ := h
    cases hr
  | .ok r =>
    rw [hresult] at hreads
    obtain ⟨hmissing, hkind⟩ := hreads
    have hokay : (∃ r', (.ok r : Except Fault Int) = .ok r' ∧ MaxIntAnswer (some keys) r') ↔
        MaxIntAnswer (some keys) r := by
      constructor
      · intro h
        obtain ⟨r', hr, hanswer⟩ := h
        obtain rfl := Except.ok.inj hr
        exact hanswer
      · exact fun hanswer => ⟨r, rfl, hanswer⟩
    rw [hokay]
    obtain ⟨hstop, rfl⟩ | ⟨hall, hret, hle, hattained⟩ := hkind
    · exact maxIntAnswer_of_stopped hmissing hstop
    · exact maxIntAnswer_of_read hne hmissing hall hret hle hattained

/-! ## The two readers -/

/-- The members of `data.keys` of a reply. -/
def keysOf? (J : RapidJson) (text : Bytes) : Option (List (Bytes × JsonValue)) :=
  (J.parse text).bind keyMembers?

/-- Both come back, with what they should. -/
structure Handles (J : RapidJson) (text : Bytes) : Prop where
  str : getJsonFieldAsStr J text = .ok (((keysOf? J text).map lastString).getD [])
  max : ∃ r, getJsonFieldMaxInt J text = .ok r ∧ MaxIntAnswer (keysOf? J text) r

/-- A document they understand. -/
structure Understood (doc : JsonValue) : Prop where
  shape : WellShaped doc
  lookup : ∀ keys, keyMembers? doc = some keys → LooksUp keys
  string : ∀ keys name s, keyMembers? doc = some keys → keys.getLast? = some (name, .string s) →
    ∀ b ∈ s, b ≠ 0

/-- No members at all. -/
theorem looksUp_nil : LooksUp [] where
  reached := trivial
  nonInt _ _ _ hmem := absurd hmem List.not_mem_nil
  max _ _ _ hmem := absurd hmem List.not_mem_nil

theorem getJsonFieldAsStr_eq {J : RapidJson} {text : Bytes} {keys : List (Bytes × JsonValue)}
    (hcheck : parseJsonAndCheck J text = .ok (some keys)) :
    getJsonFieldAsStr J text = .ok (cstr (lastString keys)) := by
  unfold getJsonFieldAsStr lastString
  rw [hcheck]
  dsimp only [bind, Except.bind]
  cases keys.getLast? with
  | none => rfl
  | some last =>
    obtain ⟨name, value⟩ := last
    cases value with
    | string s => rfl
    | _ => rfl

/-- A string survives where it is one and holds no NUL. -/
theorem cstr_lastString {keys : List (Bytes × JsonValue)} : cstr (lastString keys) = lastString keys ↔
    ∀ name s, keys.getLast? = some (name, .string s) → ∀ b ∈ s, b ≠ 0 := by
  unfold lastString
  cases hlast : keys.getLast? with
  | none => simp [cstr]
  | some last =>
    obtain ⟨name, value⟩ := last
    cases value with
    | string s =>
      dsimp only
      rw [cstr_eq_self_iff]
      constructor
      · intro h name' s' heq
        obtain ⟨rfl, hs⟩ := Prod.mk.inj (Option.some.inj heq)
        obtain rfl := JsonValue.string.inj hs
        exact h
      · exact fun h => h name s rfl
    | _ => simp [cstr]

/-- There is nothing to read. -/
theorem handles_of_empty {J : RapidJson} {text : Bytes} (hcheck : parseJsonAndCheck J text = .ok none)
    (hempty : ∀ keys, keysOf? J text = some keys → keys = []) : Handles J text := by
  refine ⟨?_, -1, ?_, fun _ => rfl, fun _ _ _ => rfl, fun keys h hne => absurd (hempty keys h) hne⟩
  · have hstr : getJsonFieldAsStr J text = .ok [] := by
      rw [getJsonFieldAsStr, hcheck]
      rfl
    cases hkeys : keysOf? J text with
    | none => exact hstr
    | some keys =>
      obtain rfl := hempty keys hkeys
      exact hstr
  · rw [getJsonFieldMaxInt, hcheck]
    rfl

theorem understood_of_empty {doc : JsonValue} (hshape : WellShaped doc)
    (hempty : ∀ keys, keyMembers? doc = some keys → keys = []) : Understood doc := by
  refine ⟨hshape, fun keys hkeys => ?_, fun keys name s hkeys hlast => ?_⟩
  · rw [hempty keys hkeys]
    exact looksUp_nil
  · rw [hempty keys hkeys] at hlast
    cases hlast

/-- There are members, and both readers are given them. -/
theorem handles_iff {J : RapidJson} {text : Bytes} {keys : List (Bytes × JsonValue)}
    (hcheck : parseJsonAndCheck J text = .ok (some keys)) (hkeys : keysOf? J text = some keys)
    (hne : keys ≠ []) : Handles J text ↔ LooksUp keys ∧ cstr (lastString keys) = lastString keys := by
  have hmax : getJsonFieldMaxInt J text = maxIntLoop keys keys (-1) := by
    rw [getJsonFieldMaxInt, hcheck]
    rfl
  have hstr : getJsonFieldAsStr J text = .ok (((keysOf? J text).map lastString).getD []) ↔
      cstr (lastString keys) = lastString keys := by
    rw [getJsonFieldAsStr_eq hcheck, hkeys]
    exact ⟨Except.ok.inj, congrArg Except.ok⟩
  constructor
  · intro h
    have hanswer := h.max
    rw [hmax, hkeys] at hanswer
    exact ⟨(maxIntLoop_exact hne).mp hanswer, hstr.mp h.str⟩
  · intro h
    refine ⟨hstr.mpr h.2, ?_⟩
    rw [hmax, hkeys]
    exact (maxIntLoop_exact hne).mpr h.1

theorem understood_iff {doc : JsonValue} {keys : List (Bytes × JsonValue)}
    (hmembers : keyMembers? doc = some keys) : Understood doc ↔
      WellShaped doc ∧ LooksUp keys ∧ cstr (lastString keys) = lastString keys := by
  constructor
  · intro h
    refine ⟨h.shape, h.lookup keys hmembers, cstr_lastString.mpr fun name s hlast => ?_⟩
    exact h.string keys name s hmembers hlast
  · intro h
    obtain ⟨hshape, hlook, hstring⟩ := h
    refine ⟨hshape, fun keys' hk => ?_, fun keys' name s hk hlast => ?_⟩
    · obtain rfl := Option.some.inj (hmembers.symm.trans hk)
      exact hlook
    · obtain rfl := Option.some.inj (hmembers.symm.trans hk)
      exact cstr_lastString.mp hstring name s hlast

/-- **Replies.** Both readers come back, with what they should, exactly where `data` and `data.keys`
are objects if they are there, the names lead to values that make no difference, and the last string
holds no NUL. -/
theorem reply_exact {J : RapidJson} {text : Bytes} :
    Handles J text ↔ ∀ doc, J.parse text = some doc → Understood doc := by
  cases hparse : J.parse text with
  | none =>
    have hcheck : parseJsonAndCheck J text = .ok none := by
      unfold parseJsonAndCheck
      rw [hparse]
    have hkeys : keysOf? J text = none := by
      rw [keysOf?, hparse]
      rfl
    refine iff_of_true (handles_of_empty hcheck fun keys h => ?_) nofun
    rw [hkeys] at h
    cases h
  | some doc =>
    have hkeys : keysOf? J text = keyMembers? doc := by
      rw [keysOf?, hparse]
      rfl
    have honly : (∀ doc', some doc = some doc' → Understood doc') ↔ Understood doc :=
      ⟨fun h => h doc rfl, fun h doc' heq => Option.some.inj heq ▸ h⟩
    rw [honly]
    obtain ⟨hshaped, hunshaped⟩ := parseJsonAndCheck_eq hparse
    by_cases hshape : WellShaped doc
    rotate_left
    · -- an accessor is applied to a value of the wrong type
      refine ⟨fun h => ?_, fun h => absurd h.shape hshape⟩
      have hstr := h.str
      rw [getJsonFieldAsStr, hunshaped hshape] at hstr
      cases hstr
    have hcheck := hshaped hshape
    by_cases hempty : ∀ keys, keyMembers? doc = some keys → keys = []
    · -- an empty `keys` counts as none
      have hnothing : parseJsonAndCheck J text = .ok none := by
        rw [hcheck]
        cases hmembers : keyMembers? doc with
        | none => rfl
        | some keys => rw [Option.bind_some, if_pos (hempty keys hmembers)]
      rw [← hkeys] at hempty
      refine iff_of_true (handles_of_empty hnothing hempty) (understood_of_empty hshape ?_)
      rwa [← hkeys]
    · obtain ⟨keys, hnot⟩ := not_forall.mp hempty
      obtain ⟨hmembers, hne⟩ := Classical.not_imp.mp hnot
      rw [hmembers, Option.bind_some, if_neg hne] at hcheck
      rw [handles_iff hcheck (hkeys.trans hmembers) hne, understood_iff hmembers,
        and_iff_right hshape]

/-! ## A number for the data -/

/-- A reply whose `data` is the number 1. -/
def numberReply : Bytes := ascii "\x7b\"data\":1\x7d"

/-- A parser, as far as that reply goes. -/
def numberJson : RapidJson where
  parse text := if text = numberReply then some (.object [(ascii "data", .int 1)]) else none
  write _ := []

theorem reply_asks_number : ¬ ∀ (J : RapidJson) (text : Bytes), Handles J text := by
  intro hall
  have hundefined : getJsonFieldAsStr numberJson numberReply = .error .undefined := by decide +kernel
  have hstr := (hall numberJson numberReply).str
  rw [hundefined] at hstr
  cases hstr

end CdfCrypto.KeyManagement
