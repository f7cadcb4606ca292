import CdfCrypto.KeyManagement.RoundTrip

/-!
# What `Init` makes of the listing

`Init` writes each field where it comes to it: the path before the domain count is
checked, the token before the first command, the keys while their reads still come in.
`PrepareMapTrace` and `InitTrace` list its traces. The map of keys only ever grows by
what the reads report (`Gathers`), except that a creation time which cannot be read
empties it. `InitTrace.ends` says the same of a whole `Init`.
-/

namespace CdfCrypto.KeyManagement

open Lib OpenbaoKeyManager

/-! ## Traces -/

/-- The traces of the loop of `PrepareMap`. -/
inductive PrepareMapTrace (H : KmHost) :
    OpenbaoKeyManager → List (Nat × Nat) → List KmEvent →
      Outcome Fault (KeyManagerRC × OpenbaoKeyManager) → Prop
  | done {m : OpenbaoKeyManager} : PrepareMapTrace H m [] [] (.ret (.ok, m))
  | failed {m : OpenbaoKeyManager} {d k : Nat} {pairs : List (Nat × Nat)} {reply : Int × Bytes}
      (hread : ¬ Succeeded reply) :
      PrepareMapTrace H m ((d, k) :: pairs) [ran m (.read d k) reply] (.ret (.error, m))
  | empty {m : OpenbaoKeyManager} {d k : Nat} {pairs : List (Nat × Nat)} {reply : Int × Bytes}
      (hread : Succeeded reply) (hempty : reply.2 = []) :
      PrepareMapTrace H m ((d, k) :: pairs) [ran m (.read d k) reply] (.ret (.ok, m))
  | faulted {m : OpenbaoKeyManager} {d k : Nat} {pairs : List (Nat × Nat)} {reply : Int × Bytes}
      {x : Fault} (hread : Succeeded reply)
      (htime : getJsonFieldMaxInt H.json reply.2 = .error x) :
      PrepareMapTrace H m ((d, k) :: pairs) [ran m (.read d k) reply] (.halt x)
  | noTime {m : OpenbaoKeyManager} {d k : Nat} {pairs : List (Nat × Nat)} {reply : Int × Bytes}
      (hread : Succeeded reply) (hsome : reply.2 ≠ [])
      (htime : getJsonFieldMaxInt H.json reply.2 = .ok (-1)) :
      PrepareMapTrace H m ((d, k) :: pairs) [ran m (.read d k) reply]
        (.ret (.error, { m with domainKeyMap := ∅ }))
  | next {m : OpenbaoKeyManager} {d k : Nat} {pairs : List (Nat × Nat)} {reply : Int × Bytes}
      {time : Int} {tr : List KmEvent} {o : Outcome Fault (KeyManagerRC × OpenbaoKeyManager)}
      (hread : Succeeded reply) (hsome : reply.2 ≠ [])
      (htime : getJsonFieldMaxInt H.json reply.2 = .ok time) (hne : time ≠ -1)
      (hrest : PrepareMapTrace H { m with domainKeyMap := m.domainKeyMap.addKey d k time }
        pairs tr o) :
      PrepareMapTrace H m ((d, k) :: pairs) (ran m (.read d k) reply :: tr) o

theorem prepareMapLoop_traces (H : KmHost) (pairs : List (Nat × Nat)) :
    ∀ m : OpenbaoKeyManager, m.accessToken ≠ [] →
      wp (prepareMapLoop H m pairs) (PrepareMapTrace H m pairs) := by
  induction pairs with
  | nil => exact fun m _ => .done
  | cons pair pairs ih =>
    intro m htoken
    unfold prepareMapLoop
    refine wp_bind.mpr (wp_runCommandAndGetResult (fun hnone => absurd hnone htoken) ?_)
    intro _ reply
    rw [then_ret]
    by_cases hs : (commandResult reply).1 ≠ .ok
    · rw [if_pos hs]
      exact .failed hs
    rw [if_neg hs]
    have hread : Succeeded reply := not_not.mp hs
    rw [commandResult_of_succeeded hread]
    by_cases hempty : reply.2 = []
    · rw [if_pos hempty]
      exact .empty hread hempty
    rw [if_neg hempty]
    refine wp_ofExcept_bind (fun time htime => ?_) fun x hx => .faulted hread hx
    by_cases hne : time ≠ -1
    · rw [if_pos hne]
      have hrest := ih { m with domainKeyMap := m.domainKeyMap.addKey pair.1 pair.2 time } htoken
      exact wp_mono hrest fun tr o h => .next hread hempty htime hne h
    · rw [if_neg hne]
      exact .noTime hread hempty (by rw [htime, not_not.mp hne])

/-- The manager during the commands of `Init`. -/
def withAccess (m : OpenbaoKeyManager) (exePath accessToken : Bytes) : OpenbaoKeyManager :=
  { m with exePath, accessToken }

/-- What `Init` goes on to once the path is accepted. -/
structure TokenTaken (accessToken : Bytes) (domainCount : Nat) : Prop where
  count : domainIdMin ≤ domainCount ∧ domainCount ≤ domainIdMax
  token : accessToken ≠ []
  copied : memcpyS accessToken.length accessToken.length = true

/-- The traces of the body of an `Init` that is not ignored. -/
inductive InitTrace (H : KmHost) (m : OpenbaoKeyManager) (exePath accessToken : Bytes)
    (domainCount : Nat) : List KmEvent →
      Outcome Fault (Except StdException KeyManagerRC × OpenbaoKeyManager) → Prop
  | refused : InitTrace H m exePath accessToken domainCount [⟨.canonicalPath exePath, none⟩]
      (.ret (.ok .invalidParam, m))
  | badCount {p : Bytes} (hcount : ¬ (domainIdMin ≤ domainCount ∧ domainCount ≤ domainIdMax)) :
      InitTrace H m exePath accessToken domainCount [⟨.canonicalPath exePath, some p⟩]
        (.ret (.ok .domainCountInvalid, { m with exePath := p }))
  | noToken {p : Bytes} (hcount : domainIdMin ≤ domainCount ∧ domainCount ≤ domainIdMax)
      (htoken : accessToken = []) :
      InitTrace H m exePath accessToken domainCount [⟨.canonicalPath exePath, some p⟩]
        (.ret (.ok .error, { m with exePath := p }))
  | notCopied {p : Bytes} (hcount : domainIdMin ≤ domainCount ∧ domainCount ≤ domainIdMax)
      (htoken : accessToken ≠ []) (hcopy : memcpyS accessToken.length accessToken.length = false) :
      InitTrace H m exePath accessToken domainCount [⟨.canonicalPath exePath, some p⟩]
        (.ret (.ok .error, withAccess m p []))
  | listFailed {p : Bytes} {reply : Int × Bytes} (htaken : TokenTaken accessToken domainCount)
      (hlist : ¬ Succeeded reply) :
      InitTrace H m exePath accessToken domainCount
        [⟨.canonicalPath exePath, some p⟩, ran (withAccess m p accessToken) .list reply]
        (.ret (.ok .error, withAccess m p accessToken))
  | thrown {p : Bytes} {reply : Int × Bytes} {e : StdException}
      (htaken : TokenTaken accessToken domainCount) (hlist : Succeeded reply)
      (hsome : reply.2 ≠ ascii "{}\n") (hpairs : getJsonFieldIntPairVec H.json reply.2 = .error e) :
      InitTrace H m exePath accessToken domainCount
        [⟨.canonicalPath exePath, some p⟩, ran (withAccess m p accessToken) .list reply]
        (.ret (.error e, withAccess m p accessToken))
  | unreadable {p : Bytes} {reply : Int × Bytes}
      (htaken : TokenTaken accessToken domainCount) (hlist : Succeeded reply)
      (hsome : reply.2 ≠ ascii "{}\n") (hpairs : getJsonFieldIntPairVec H.json reply.2 = .ok none) :
      InitTrace H m exePath accessToken domainCount
        [⟨.canonicalPath exePath, some p⟩, ran (withAccess m p accessToken) .list reply]
        (.ret (.ok .error, withAccess m p accessToken))
  | nothing {p : Bytes} {reply : Int × Bytes} (htaken : TokenTaken accessToken domainCount)
      (hlist : Succeeded reply) (hnone : reply.2 = ascii "{}\n") :
      InitTrace H m exePath accessToken domainCount
        [⟨.canonicalPath exePath, some p⟩, ran (withAccess m p accessToken) .list reply]
        (.ret (.ok .ok, { withAccess m p accessToken with
          inited := true, domainCount := ⟨domainCount, htaken.count⟩ }))
  | prepared {p : Bytes} {reply : Int × Bytes} {pairs : List (Nat × Nat)} {tr : List KmEvent}
      {m' : OpenbaoKeyManager} (htaken : TokenTaken accessToken domainCount)
      (hlist : Succeeded reply) (hsome : reply.2 ≠ ascii "{}\n")
      (hpairs : getJsonFieldIntPairVec H.json reply.2 = .ok (some pairs))
      (hloop : PrepareMapTrace H (withAccess m p accessToken) pairs tr (.ret (.ok, m'))) :
      InitTrace H m exePath accessToken domainCount
        (⟨.canonicalPath exePath, some p⟩ :: ran (withAccess m p accessToken) .list reply :: tr)
        (.ret (.ok .ok, { m' with inited := true, domainCount := ⟨domainCount, htaken.count⟩ }))
  | notPrepared {p : Bytes} {reply : Int × Bytes} {pairs : List (Nat × Nat)} {tr : List KmEvent}
      {rc : KeyManagerRC} {m' : OpenbaoKeyManager} (htaken : TokenTaken accessToken domainCount)
      (hlist : Succeeded reply) (hsome : reply.2 ≠ ascii "{}\n")
      (hpairs : getJsonFieldIntPairVec H.json reply.2 = .ok (some pairs))
      (hloop : PrepareMapTrace H (withAccess m p accessToken) pairs tr (.ret (rc, m')))
      (hrc : rc ≠ .ok) :
      InitTrace H m exePath accessToken domainCount
        (⟨.canonicalPath exePath, some p⟩ :: ran (withAccess m p accessToken) .list reply :: tr)
        (.ret (.ok .error, m'))
  | faulted {p : Bytes} {reply : Int × Bytes} {pairs : List (Nat × Nat)} {tr : List KmEvent}
      {x : Fault} (htaken : TokenTaken accessToken domainCount)
      (hlist : Succeeded reply) (hsome : reply.2 ≠ ascii "{}\n")
      (hpairs : getJsonFieldIntPairVec H.json reply.2 = .ok (some pairs))
      (hloop : PrepareMapTrace H (withAccess m p accessToken) pairs tr (.halt x)) :
      InitTrace H m exePath accessToken domainCount
        (⟨.canonicalPath exePath, some p⟩ :: ran (withAccess m p accessToken) .list reply :: tr)
        (.halt x)

/-- The events of a locked body with the mutex around them. -/
structure Around (tr es : List KmEvent) : Prop where
  inner : ∀ ev ∈ tr, ev ∈ es
  outer : ∀ ev ∈ es, ev ∈ tr ∨ ev = acquired .exclusive ∨ ev = released .exclusive

theorem around_released (tr : List KmEvent) :
    Around tr (acquired .exclusive :: (tr ++ [released .exclusive])) where
  inner ev hev := List.mem_cons_of_mem _ (List.mem_append_left _ hev)
  outer ev hev := by
    rcases List.mem_cons.mp hev with rfl | hev
    · exact .inr (.inl rfl)
    rcases List.mem_append.mp hev with hev | hev
    · exact .inl hev
    · exact .inr (.inr (List.mem_singleton.mp hev))

theorem around_kept (tr : List KmEvent) : Around tr (acquired .exclusive :: tr) where
  inner _ hev := List.mem_cons_of_mem _ hev
  outer _ hev := (List.mem_cons.mp hev).elim (fun h => .inr (.inl h)) .inl

/-- What the mutex is no event of happens inside. -/
theorem Around.exists_iff {tr es : List KmEvent} (h : Around tr es) {P : KmEvent → Prop}
    (hacquired : ¬ P (acquired .exclusive)) (hreleased : ¬ P (released .exclusive)) :
    (∃ ev ∈ es, P ev) ↔ ∃ ev ∈ tr, P ev := by
  constructor
  · intro hboth
    obtain ⟨ev, hev, hP⟩ := hboth
    rcases h.outer ev hev with hin | rfl | rfl
    · exact ⟨ev, hin, hP⟩
    · exact absurd hP hacquired
    · exact absurd hP hreleased
  · intro hboth
    obtain ⟨ev, hev, hP⟩ := hboth
    exact ⟨ev, h.inner ev hev, hP⟩

theorem init_traces (H : KmHost) {m : OpenbaoKeyManager} (hnot : m.inited = false)
    (exePath accessToken : Bytes) (domainCount : Nat) :
    wp (m.init H exePath accessToken domainCount) fun es o =>
      ∃ tr, Around tr es ∧ InitTrace H m exePath accessToken domainCount tr o := by
  unfold OpenbaoKeyManager.init
  have hunlock : ∀ tr o, InitTrace H m exePath accessToken domainCount tr o →
      Unlocking .exclusive (fun es o =>
        ∃ tr, Around tr es ∧ InitTrace H m exePath accessToken domainCount tr o) tr o := by
    intro tr o h
    cases o with
    | ret a => exact ⟨tr, around_released tr, h⟩
    | halt x => exact ⟨tr, around_kept tr, h⟩
  refine wp_locked.mpr (wp_mono ?_ hunlock)
  rw [if_neg (by simp [hnot]), Prog.perform_bind]
  intro canonical
  cases canonical with
  | none => exact .refused
  | some p =>
    dsimp only
    by_cases hcount : domainIdMin ≤ domainCount ∧ domainCount ≤ domainIdMax
    rotate_left
    · rw [dif_neg hcount]
      exact .badCount hcount
    rw [dif_pos hcount]
    by_cases htoken : accessToken = []
    · rw [if_pos htoken]
      exact .noToken hcount htoken
    rw [if_neg htoken]
    by_cases hcopy : ¬ memcpyS accessToken.length accessToken.length
    · rw [if_pos hcopy]
      exact .notCopied hcount htoken (by simpa using hcopy)
    rw [if_neg hcopy]
    have htaken : TokenTaken accessToken domainCount := ⟨hcount, htoken, not_not.mp hcopy⟩
    unfold prepareMap
    refine wp_bind.mpr (wp_bind.mpr (wp_runCommandAndGetResult (fun hnone => absurd hnone htoken) ?_))
    intro _ reply
    rw [then_ret]
    by_cases hs : (commandResult reply).1 ≠ .ok
    · rw [if_pos hs]
      exact .listFailed htaken hs
    rw [if_neg hs]
    have hlist : Succeeded reply := not_not.mp hs
    rw [commandResult_of_succeeded hlist]
    dsimp only
    by_cases hnone : reply.2 = ascii "{}\n"
    · rw [if_pos hnone]
      exact .nothing htaken hlist hnone
    rw [if_neg hnone]
    cases hpairs : getJsonFieldIntPairVec H.json reply.2 with
    | error e => exact .thrown htaken hlist hnone hpairs
    | ok found =>
      cases found with
      | none => exact .unreadable htaken hlist hnone hpairs
      | some pairs =>
        have hloop := prepareMapLoop_traces H pairs (withAccess m p accessToken) htoken
        refine wp_bind.mpr (wp_mono hloop fun tr o h => ?_)
        cases o with
        | halt x => exact .faulted htaken hlist hnone hpairs h
        | ret prepared =>
          obtain ⟨rc, m'⟩ := prepared
          show wp (if rc ≠ .ok then _ else _) _
          by_cases hrc : rc ≠ .ok
          · rw [if_pos hrc]
            rw [wp_ret, List.append_nil, List.append_nil]
            exact .notPrepared htaken hlist hnone hpairs h hrc
          · rw [if_neg hrc]
            obtain rfl := not_not.mp hrc
            rw [wp_ret, List.append_nil, List.append_nil]
            exact .prepared htaken hlist hnone hpairs h

/-! ## What the reads report -/

/-- A read came back with the creation time of the key. -/
def Reports (H : KmHost) (d k : Nat) (time : Int) : KmEvent → Prop
  | ⟨.run _ _ (.read d' k'), reply⟩ => (d' = d ∧ k' = k) ∧ Succeeded reply ∧ reply.2 ≠ [] ∧
    getJsonFieldMaxInt H.json reply.2 = .ok time ∧ time ≠ -1
  | _ => False

/-- A read came back with something that holds no creation time. -/
def ReportsNoTime (H : KmHost) : KmEvent → Prop
  | ⟨.run _ _ (.read _ _), reply⟩ => Succeeded reply ∧ reply.2 ≠ [] ∧
    getJsonFieldMaxInt H.json reply.2 = .ok (-1)
  | _ => False

/-- A read that failed. -/
def FailsRead : KmEvent → Prop
  | ⟨.run _ _ (.read _ _), reply⟩ => ¬ Succeeded reply
  | _ => False

/-- A read, whatever it came back with. -/
def IsRead : KmEvent → Prop
  | ⟨.run _ _ (.read _ _), _⟩ => True
  | _ => False

/-- The path was accepted as `p`. -/
def AcceptsPath (p : Bytes) : KmEvent → Prop
  | ⟨.canonicalPath _, some q⟩ => q = p
  | _ => False

/-- Some read reports the key with that time. -/
def Reported (H : KmHost) (tr : List KmEvent) (d k : Nat) (time : Int) : Prop :=
  ∃ ev ∈ tr, Reports H d k time ev

namespace DomainKeyMap

variable {map : DomainKeyMap} {d d' k k' : Nat} {t : Int}

/-- The creation time of a key of the map. -/
def time? (map : DomainKeyMap) (d k : Nat) : Option Int := (map.at' d)[k]?

theorem holds_iff_time? : map.Holds d k ↔ ∃ t, map.time? d k = some t := by
  unfold Holds time?
  rw [Std.ExtTreeMap.mem_iff_isSome_getElem?, Option.isSome_iff_exists]

/-- A key that is there keeps its time. -/
theorem time?_addKey : (map.addKey d k t).time? d' k' =
    if (d = d' ∧ k = k') ∧ k ∉ map.at' d then some t else map.time? d' k' := by
  unfold time? addKey
  rw [at'_insert]
  by_cases hd : d = d'
  · subst hd
    rw [if_pos rfl, Std.ExtTreeMap.getElem?_insertIfNew]
    simp
  · rw [if_neg hd, if_neg fun h => hd h.1.1]

/-- Adding a key that is there changes nothing. -/
theorem addKey_of_holds (h : map.Holds d k) : map.addKey d k t = map := by
  have hinner : (map.at' d).insertIfNew k t = map.at' d := by
    refine Std.ExtTreeMap.ext_getElem? fun a => ?_
    rw [Std.ExtTreeMap.getElem?_insertIfNew]
    refine if_neg fun hboth => hboth.2 ?_
    exact h
  unfold addKey
  rw [hinner]
  refine Std.ExtTreeMap.ext_getElem? fun a => ?_
  rw [Std.ExtTreeMap.getElem?_insert]
  split
  next heq =>
    obtain rfl : d = a := by simpa using heq
    rw [at', Std.ExtTreeMap.getD_eq_getD_getElem?]
    obtain ⟨keys, hkeys⟩ : ∃ keys, map[d]? = some keys :=
      Option.isSome_iff_exists.mp (Std.ExtTreeMap.mem_iff_isSome_getElem?.mp h.mem)
    rw [hkeys, Option.getD_some]
  next => rfl

end DomainKeyMap

/-- What the loop makes of the reads, where every time could be read. -/
structure Gathers (H : KmHost) (m : OpenbaoKeyManager) (tr : List KmEvent)
    (m' : OpenbaoKeyManager) : Prop where
  kept : ∀ d k t, m.domainKeyMap.time? d k = some t → m'.domainKeyMap.time? d k = some t
  added : ∀ d k t, Reported H tr d k t → m'.domainKeyMap.Holds d k
  origin : ∀ d k t, m'.domainKeyMap.time? d k = some t →
    m.domainKeyMap.time? d k = some t ∨ Reported H tr d k t
  unchanged : (∀ d k t, Reported H tr d k t → m.domainKeyMap.Holds d k) →
    m'.domainKeyMap = m.domainKeyMap

/-- Reads that report nothing leave the map. -/
theorem Gathers.of_none {H : KmHost} {m : OpenbaoKeyManager} {tr : List KmEvent}
    (h : ∀ ev ∈ tr, ∀ d k t, ¬ Reports H d k t ev) : Gathers H m tr m where
  kept _ _ _ := id
  added d k t := fun ⟨ev, hev, hreports⟩ => absurd hreports (h ev hev d k t)
  origin _ _ _ := .inl
  unchanged _ := rfl

/-- Only the maps and the reports matter. -/
theorem Gathers.congr {H : KmHost} {m₁ m₂ m₁' m₂' : OpenbaoKeyManager} {tr₁ tr₂ : List KmEvent}
    (h : Gathers H m₁ tr₁ m₁') (hm : m₁.domainKeyMap = m₂.domainKeyMap)
    (hm' : m₁'.domainKeyMap = m₂'.domainKeyMap)
    (htr : ∀ d k t, Reported H tr₁ d k t ↔ Reported H tr₂ d k t) : Gathers H m₂ tr₂ m₂' where
  kept := hm ▸ hm' ▸ h.kept
  added d k t hreported := hm' ▸ h.added d k t ((htr d k t).mpr hreported)
  origin d k t ht := (h.origin d k t (hm' ▸ ht)).imp (hm ▸ id) (htr d k t).mp
  unchanged hheld := by
    rw [← hm', ← hm]
    exact h.unchanged fun d k t hreported => hm ▸ hheld d k t ((htr d k t).mp hreported)

/-- One read before the others. -/
theorem Gathers.cons {H : KmHost} {m m' : OpenbaoKeyManager} {d k : Nat} {time : Int}
    {reply : Int × Bytes} {tr : List KmEvent} (hread : Succeeded reply) (hsome : reply.2 ≠ [])
    (htime : getJsonFieldMaxInt H.json reply.2 = .ok time) (hne : time ≠ -1)
    (h : Gathers H { m with domainKeyMap := m.domainKeyMap.addKey d k time } tr m') :
    Gathers H m (ran m (.read d k) reply :: tr) m' := by
  have hhere : Reports H d k time (ran m (.read d k) reply) := ⟨⟨rfl, rfl⟩, hread, hsome, htime, hne⟩
  have honly : ∀ d' k' t, Reports H d' k' t (ran m (.read d k) reply) →
      (d = d' ∧ k = k') ∧ t = time := by
    intro d' k' t hboth
    obtain ⟨hkey, -, -, ht, -⟩ := hboth
    exact ⟨hkey, Except.ok.inj (ht.symm.trans htime)⟩
  constructor
  · -- the read does not move the time of a key that is there
    intro d' k' t ht
    refine h.kept d' k' t ?_
    rw [DomainKeyMap.time?_addKey, if_neg]
    · exact ht
    · intro hboth
      obtain ⟨⟨rfl, rfl⟩, hnot⟩ := hboth
      exact hnot (DomainKeyMap.holds_iff_time?.mpr ⟨t, ht⟩)
  · intro d' k' t hboth
    obtain ⟨ev, hev, hreports⟩ := hboth
    rcases List.mem_cons.mp hev with rfl | hev
    · obtain ⟨⟨rfl, rfl⟩, rfl⟩ := honly d' k' t hreports
      obtain ⟨t', ht'⟩ := DomainKeyMap.holds_iff_time?.mp
        (DomainKeyMap.holds_addKey.mpr (.inl ⟨rfl, rfl⟩) :
          (m.domainKeyMap.addKey d k t).Holds d k)
      exact DomainKeyMap.holds_iff_time?.mpr ⟨t', h.kept _ _ _ ht'⟩
    · exact h.added d' k' t ⟨ev, hev, hreports⟩
  · -- a time comes from before, from this read, or from a later one
    intro d' k' t ht
    rcases h.origin d' k' t ht with hfirst | ⟨ev, hev, hreports⟩
    · rw [DomainKeyMap.time?_addKey] at hfirst
      split at hfirst
      next hnew =>
        obtain ⟨⟨rfl, rfl⟩, -⟩ := hnew
        obtain rfl := Option.some.inj hfirst
        exact .inr ⟨_, List.mem_cons_self, hhere⟩
      next => exact .inl hfirst
    · exact .inr ⟨ev, List.mem_cons_of_mem _ hev, hreports⟩
  · -- what is reported is known, so this read adds nothing
    intro hheld
    have hadd : m.domainKeyMap.addKey d k time = m.domainKeyMap :=
      DomainKeyMap.addKey_of_holds (hheld d k time ⟨_, List.mem_cons_self, hhere⟩)
    rw [h.unchanged, hadd]
    intro d' k' t hboth
    obtain ⟨ev, hev, hreports⟩ := hboth
    exact DomainKeyMap.holds_addKey.mpr
      (.inr (hheld d' k' t ⟨ev, List.mem_cons_of_mem _ hev, hreports⟩))

/-- **What the loop leaves**: the map with what the reads report, or an empty one where a
read reports no time, and OK exactly where neither that nor a failed read stops it. -/
structure LoopLeaves (H : KmHost) (m : OpenbaoKeyManager) (tr : List KmEvent) (rc : KeyManagerRC)
    (m' : OpenbaoKeyManager) : Prop where
  sameButMap : SameButMap m m'
  ok_iff : rc = .ok ↔ ∀ ev ∈ tr, ¬ FailsRead ev ∧ ¬ ReportsNoTime H ev
  emptied : (∃ ev ∈ tr, ReportsNoTime H ev) → m'.domainKeyMap = ∅
  gathers : (¬ ∃ ev ∈ tr, ReportsNoTime H ev) → Gathers H m tr m'
  onlyReads : ∀ ev ∈ tr, IsRead ev

theorem LoopLeaves.cons {H : KmHost} {m m' : OpenbaoKeyManager} {d k : Nat} {time : Int}
    {reply : Int × Bytes} {tr : List KmEvent} {rc : KeyManagerRC} (hread : Succeeded reply)
    (hsome : reply.2 ≠ []) (htime : getJsonFieldMaxInt H.json reply.2 = .ok time) (hne : time ≠ -1)
    (h : LoopLeaves H { m with domainKeyMap := m.domainKeyMap.addKey d k time } tr rc m') :
    LoopLeaves H m (ran m (.read d k) reply :: tr) rc m' := by
  have hfails : ¬ FailsRead (ran m (.read d k) reply) := not_not.mpr hread
  have hhas : ¬ ReportsNoTime H (ran m (.read d k) reply) := by
    intro hboth
    obtain ⟨-, -, hminus⟩ := hboth
    exact hne (Except.ok.inj (htime.symm.trans hminus))
  have hadd : SameButMap m { m with domainKeyMap := m.domainKeyMap.addKey d k time } := rfl
  -- this read neither fails nor is without a time, so each part is that of the rest
  constructor
  · exact hadd.trans h.sameButMap
  · rw [h.ok_iff, List.forall_mem_cons]
    exact ⟨fun hall => ⟨⟨hfails, hhas⟩, hall⟩, fun hall => hall.2⟩
  · intro hboth
    obtain ⟨ev, hev, hno⟩ := hboth
    rcases List.mem_cons.mp hev with rfl | hev
    · exact absurd hno hhas
    · exact h.emptied ⟨ev, hev, hno⟩
  · intro hno
    refine Gathers.cons hread hsome htime hne (h.gathers ?_)
    intro hboth
    obtain ⟨ev, hev, hminus⟩ := hboth
    exact hno ⟨ev, List.mem_cons_of_mem _ hev, hminus⟩
  · rw [List.forall_mem_cons]
    exact ⟨trivial, h.onlyReads⟩

theorem PrepareMapTrace.leaves {H : KmHost} {m m' : OpenbaoKeyManager} {pairs : List (Nat × Nat)}
    {tr : List KmEvent} {o : Outcome Fault (KeyManagerRC × OpenbaoKeyManager)}
    (h : PrepareMapTrace H m pairs tr o) {rc : KeyManagerRC} (ho : o = .ret (rc, m')) :
    LoopLeaves H m tr rc m' := by
  induction h with
  | done =>
    obtain ⟨rfl, rfl⟩ := Prod.mk.inj (Outcome.ret.inj ho)
    exact ⟨.refl _, by simp, by simp, fun _ => .of_none (by simp), by simp⟩
  | @failed m d k pairs reply hread =>
    obtain ⟨rfl, rfl⟩ := Prod.mk.inj (Outcome.ret.inj ho)
    have hfails : FailsRead (ran m (.read d k) reply) := hread
    exact ⟨.refl _, by simp [hfails], by simp [ReportsNoTime, ran, hread],
      fun _ => .of_none (by simp [Reports, ran, hread]), by simp [IsRead, ran]⟩
  | @empty m d k pairs reply hread hempty =>
    obtain ⟨rfl, rfl⟩ := Prod.mk.inj (Outcome.ret.inj ho)
    exact ⟨.refl _, by simp [FailsRead, ReportsNoTime, ran, hread, hempty],
      by simp [ReportsNoTime, ran, hempty],
      fun _ => .of_none (by simp [Reports, ran, hempty]), by simp [IsRead, ran]⟩
  | faulted hread htime => cases ho
  | @noTime m d k pairs reply hread hsome htime =>
    obtain ⟨rfl, rfl⟩ := Prod.mk.inj (Outcome.ret.inj ho)
    have hno : ReportsNoTime H (ran m (.read d k) reply) := ⟨hread, hsome, htime⟩
    exact ⟨rfl, by simp [hno], fun _ => rfl, fun h => absurd ⟨_, List.mem_singleton.mpr rfl, hno⟩ h,
      by simp [IsRead, ran]⟩
  | next hread hsome htime hne _ ih => exact (ih ho).cons hread hsome htime hne

/-! ## What `Init` asks for -/

theorem IsRead.not_acceptsPath {p : Bytes} {ev : KmEvent} (h : IsRead ev) : ¬ AcceptsPath p ev := by
  intro haccepts
  unfold AcceptsPath at haccepts
  split at haccepts
  · exact h
  · exact haccepts

/-- A listing that `PrepareMap` can go through. -/
def Readable (H : KmHost) : KmEvent → Prop
  | ⟨.run _ _ .list, reply⟩ => Succeeded reply ∧ (reply.2 = ascii "{}\n" ∨
    ∃ pairs, getJsonFieldIntPairVec H.json reply.2 = .ok (some pairs))
  | _ => False

/-- The name stands in the listing. -/
def Lists (H : KmHost) (name : Bytes) : KmEvent → Prop
  | ⟨.run _ _ .list, reply⟩ => Succeeded reply ∧ reply.2 ≠ ascii "{}\n" ∧
    ∃ elements, H.json.parse reply.2 = some (.array elements) ∧ .string name ∈ elements
  | _ => False

def Listed (H : KmHost) (tr : List KmEvent) (name : Bytes) : Prop := ∃ ev ∈ tr, Lists H name ev

theorem IsRead.not_lists {H : KmHost} {name : Bytes} {ev : KmEvent} (h : IsRead ev) :
    ¬ Lists H name ev := by
  intro hlists
  unfold Lists at hlists
  split at hlists
  · exact h
  · exact hlists

/-- Every command of `Init` did what it is run for; it runs none before the path, the count
and the token are accepted. -/
structure Answered (H : KmHost) (tr : List KmEvent) : Prop where
  listing : ∃ ev ∈ tr, Readable H ev
  reads : ¬ ∃ ev ∈ tr, FailsRead ev
  times : ¬ ∃ ev ∈ tr, ReportsNoTime H ev

/-- The token `Init` leaves once the path is accepted. -/
def tokenAfter (m : OpenbaoKeyManager) (accessToken : Bytes) (domainCount : Nat) : Bytes :=
  if (domainIdMin ≤ domainCount ∧ domainCount ≤ domainIdMax) ∧ accessToken ≠ [] then
    if memcpyS accessToken.length accessToken.length then accessToken else []
  else m.accessToken

/-- What an `Init` that fails leaves. -/
structure InitFails (H : KmHost) (m : OpenbaoKeyManager) (accessToken : Bytes) (domainCount : Nat)
    (tr : List KmEvent) (m' : OpenbaoKeyManager) : Prop where
  refused : (¬ ∃ p, ∃ ev ∈ tr, AcceptsPath p ev) → m' = m
  exePath : ∀ p, (∃ ev ∈ tr, AcceptsPath p ev) → m'.exePath = p
  accessToken : (∃ p, ∃ ev ∈ tr, AcceptsPath p ev) →
    m'.accessToken = tokenAfter m accessToken domainCount
  inited : m'.inited = m.inited
  domainCount : m'.domainCount = m.domainCount
  emptied : (∃ ev ∈ tr, ReportsNoTime H ev) → m'.domainKeyMap = ∅
  gathers : (¬ ∃ ev ∈ tr, ReportsNoTime H ev) → Gathers H m tr m'

theorem tokenAfter_taken {m : OpenbaoKeyManager} {accessToken : Bytes} {domainCount : Nat}
    (h : TokenTaken accessToken domainCount) : tokenAfter m accessToken domainCount = accessToken := by
  rw [tokenAfter, if_pos ⟨h.count, h.token⟩, if_pos h.copied]

/-- Failures before the first read. -/
theorem InitFails.of_noRead {H : KmHost} {m m' : OpenbaoKeyManager} {accessToken p : Bytes}
    {domainCount : Nat} {tr : List KmEvent} (hpath : ∀ q, (∃ ev ∈ tr, AcceptsPath q ev) ↔ q = p)
    (hno : ∀ ev ∈ tr, ¬ ReportsNoTime H ev ∧ ∀ d k t, ¬ Reports H d k t ev)
    (hm : m' = withAccess m p (tokenAfter m accessToken domainCount)) :
    InitFails H m accessToken domainCount tr m' := by
  subst hm
  constructor
  · exact fun hnone => absurd ⟨p, (hpath p).mpr rfl⟩ hnone
  · exact fun q hq => ((hpath q).mp hq).symm
  · exact fun _ => rfl
  · rfl
  · rfl
  · exact fun ⟨ev, hev, h⟩ => absurd h (hno ev hev).1
  · intro _
    have hgathers : Gathers H m tr m := .of_none fun ev hev => (hno ev hev).2
    exact hgathers.congr rfl rfl fun _ _ _ => Iff.rfl

/-- What `Init` leaves, by what it returns. -/
structure InitEnds (H : KmHost) (m : OpenbaoKeyManager) (accessToken : Bytes) (domainCount : Nat)
    (tr : List KmEvent) (rc : KeyManagerRC) (m' : OpenbaoKeyManager) : Prop where
  ok_iff : rc = .ok ↔ Answered H tr
  ok : rc = .ok → Gathers H m tr m'
  failed : rc ≠ .ok → InitFails H m accessToken domainCount tr m'

theorem InitEnds.of_fails {H : KmHost} {m m' : OpenbaoKeyManager} {accessToken : Bytes}
    {domainCount : Nat} {tr : List KmEvent} {rc : KeyManagerRC} (hrc : rc ≠ .ok)
    (hno : ¬ Answered H tr) (hfails : InitFails H m accessToken domainCount tr m') :
    InitEnds H m accessToken domainCount tr rc m' :=
  ⟨⟨fun h => absurd h hrc, fun h => absurd h hno⟩, fun h => absurd h hrc, fun _ => hfails⟩

theorem InitEnds.of_answered {H : KmHost} {m m' : OpenbaoKeyManager} {accessToken : Bytes}
    {domainCount : Nat} {tr : List KmEvent} (hanswered : Answered H tr) (hgathers : Gathers H m tr m') :
    InitEnds H m accessToken domainCount tr .ok m' :=
  ⟨⟨fun _ => hanswered, fun _ => rfl⟩, fun _ => hgathers, fun hrc => absurd rfl hrc⟩

/-- Without a listing that can be read nothing is answered. -/
theorem not_answered {H : KmHost} {tr : List KmEvent} (h : ∀ ev ∈ tr, ¬ Readable H ev) :
    ¬ Answered H tr := by
  intro hanswered
  obtain ⟨ev, hev, hreadable⟩ := hanswered.listing
  exact h ev hev hreadable

/-- What the path check and the listing are no event of comes after them. -/
theorem exists_mem_after {P : KmEvent → Prop} {ev₁ ev₂ : KmEvent} {tr : List KmEvent}
    (h₁ : ¬ P ev₁) (h₂ : ¬ P ev₂) : (∃ ev ∈ ev₁ :: ev₂ :: tr, P ev) ↔ ∃ ev ∈ tr, P ev := by
  simp [h₁, h₂]

section Loop

variable {H : KmHost} {m m' : OpenbaoKeyManager} {exePath accessToken p : Bytes}
  {domainCount : Nat} {reply : Int × Bytes} {tr : List KmEvent} {rc : KeyManagerRC}

/-- The listing is answered where every read is. -/
theorem LoopLeaves.answered (h : LoopLeaves H (withAccess m p accessToken) tr rc m')
    (hreadable : Readable H (ran (withAccess m p accessToken) .list reply)) :
    Answered H (⟨.canonicalPath exePath, some p⟩ ::
      ran (withAccess m p accessToken) .list reply :: tr) ↔ rc = .ok := by
  constructor
  · intro hanswered
    refine h.ok_iff.mpr fun ev hev => ⟨fun hfails => ?_, fun hno => ?_⟩
    · exact hanswered.reads ((exists_mem_after id id).mpr ⟨ev, hev, hfails⟩)
    · exact hanswered.times ((exists_mem_after id id).mpr ⟨ev, hev, hno⟩)
  · intro hrc
    have hall := h.ok_iff.mp hrc
    refine ⟨⟨_, List.mem_cons_of_mem _ List.mem_cons_self, hreadable⟩, ?_, ?_⟩
    · rw [exists_mem_after id id]
      exact fun ⟨ev, hev, hfails⟩ => (hall ev hev).1 hfails
    · rw [exists_mem_after id id]
      exact fun ⟨ev, hev, hno⟩ => (hall ev hev).2 hno

/-- A loop that fails leaves what it had gathered. -/
theorem LoopLeaves.initFails (h : LoopLeaves H (withAccess m p accessToken) tr rc m')
    (htaken : TokenTaken accessToken domainCount) :
    InitFails H m accessToken domainCount (⟨.canonicalPath exePath, some p⟩ ::
      ran (withAccess m p accessToken) .list reply :: tr) m' := by
  have hpath : AcceptsPath p ⟨.canonicalPath exePath, some p⟩ := rfl
  refine ⟨fun hnone => absurd ⟨p, _, List.mem_cons_self, hpath⟩ hnone, ?_, fun _ => ?_,
    h.sameButMap.inited, h.sameButMap.domainCount, ?_, ?_⟩
  · intro q hboth
    obtain ⟨ev, hev, haccepts⟩ := hboth
    rcases List.mem_cons.mp hev with rfl | hev
    · rw [h.sameButMap.exePath]
      exact haccepts
    rcases List.mem_cons.mp hev with rfl | hev
    · exact haccepts.elim
    · exact absurd haccepts (h.onlyReads ev hev).not_acceptsPath
  · rw [tokenAfter_taken htaken]
    exact h.sameButMap.accessToken
  · rw [exists_mem_after id id]
    exact h.emptied
  · rw [exists_mem_after id id]
    intro hno
    exact (h.gathers hno).congr rfl rfl fun d k t => (exists_mem_after id id).symm

end Loop

theorem InitTrace.ends {H : KmHost} {m m' : OpenbaoKeyManager} {exePath accessToken : Bytes}
    {domainCount : Nat} {tr : List KmEvent} {rc : KeyManagerRC}
    (h : InitTrace H m exePath accessToken domainCount tr (.ret (.ok rc, m'))) :
    InitEnds H m accessToken domainCount tr rc m' := by
  cases h with
  | refused =>
    refine .of_fails (by decide) (not_answered (by simp [Readable]))
      ⟨fun _ => rfl, ?_, ?_, rfl, rfl, ?_, fun _ => ?_⟩
    · simp [AcceptsPath]
    · simp [AcceptsPath]
    · simp [ReportsNoTime]
    · exact .of_none (by simp [Reports])
  | @badCount p hcount =>
    refine .of_fails (by decide) (not_answered (by simp [Readable])) (.of_noRead (p := p) ?_ ?_ ?_)
    · simp [AcceptsPath, eq_comm]
    · simp [ReportsNoTime, Reports]
    · rw [tokenAfter, if_neg fun hboth => hcount hboth.1]
      rfl
  | @noToken p hcount htoken =>
    refine .of_fails (by decide) (not_answered (by simp [Readable])) (.of_noRead (p := p) ?_ ?_ ?_)
    · simp [AcceptsPath, eq_comm]
    · simp [ReportsNoTime, Reports]
    · rw [tokenAfter, if_neg fun hboth => hboth.2 htoken]
      rfl
  | @notCopied p hcount htoken hcopy =>
    refine .of_fails (by decide) (not_answered (by simp [Readable])) (.of_noRead (p := p) ?_ ?_ ?_)
    · simp [AcceptsPath, eq_comm]
    · simp [ReportsNoTime, Reports]
    · rw [tokenAfter, if_pos ⟨hcount, htoken⟩, if_neg (by simp [hcopy])]
  | @listFailed p reply htaken hlist =>
    refine .of_fails (by decide) (not_answered (by simp [Readable, ran, hlist]))
      (.of_noRead (p := p) ?_ ?_ ?_)
    · simp [AcceptsPath, ran, eq_comm]
    · simp [ReportsNoTime, Reports, ran]
    · rw [tokenAfter_taken htaken]
  | @unreadable p reply htaken hlist hsome hpairs =>
    refine .of_fails (by decide) (not_answered (by simp [Readable, ran, hsome, hpairs]))
      (.of_noRead (p := p) ?_ ?_ ?_)
    · simp [AcceptsPath, ran, eq_comm]
    · simp [ReportsNoTime, Reports, ran]
    · rw [tokenAfter_taken htaken]
  | @nothing p reply htaken hlist hnone =>
    have hreadable : Readable H (ran (withAccess m p accessToken) .list reply) := ⟨hlist, .inl hnone⟩
    have hgathers : Gathers H m [⟨.canonicalPath exePath, some p⟩,
        ran (withAccess m p accessToken) .list reply] m := .of_none (by simp [Reports, ran])
    refine .of_answered ⟨⟨_, by simp, hreadable⟩, ?_, ?_⟩ (hgathers.congr rfl rfl fun _ _ _ => Iff.rfl)
    · simp [FailsRead, ran]
    · simp [ReportsNoTime, ran]
  | @prepared p reply pairs tr m' htaken hlist hsome hpairs hloop =>
    have hleaves := hloop.leaves rfl
    have hno : ¬ ∃ ev ∈ tr, ReportsNoTime H ev :=
      fun ⟨ev, hev, h⟩ => (hleaves.ok_iff.mp rfl ev hev).2 h
    exact .of_answered ((hleaves.answered ⟨hlist, .inr ⟨pairs, hpairs⟩⟩).mpr rfl)
      ((hleaves.gathers hno).congr rfl rfl fun d k t => (exists_mem_after id id).symm)
  | @notPrepared p reply pairs tr rc m' htaken hlist hsome hpairs hloop hrc =>
    have hleaves := hloop.leaves rfl
    exact .of_fails (by decide) (fun h => hrc
      ((hleaves.answered ⟨hlist, .inr ⟨pairs, hpairs⟩⟩).mp h)) (hleaves.initFails htaken)

end CdfCrypto.KeyManagement
