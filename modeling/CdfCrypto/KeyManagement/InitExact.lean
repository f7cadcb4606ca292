import CdfCrypto.KeyManagement.Listing

/-!
# All or nothing

`Init` should either be ready with exactly the keys of the listing, or leave the manager
as it was. It writes as it goes, and nothing undoes that: an `Init` that fails has changed
nothing only where it wrote what was there already, and one that returns OK has the
listing exactly where every listed key reported, nothing else was taken for a key, and
nothing was left over from earlier (`initExact_iff`). The kinds of incomplete answer are
in `InitTrace.complete`: a read that comes back empty, and a name that is not a key's.
-/

namespace CdfCrypto.KeyManagement

open Lib OpenbaoKeyManager

/-! ## All or nothing, and exactly the listing -/

/-- OK with exactly the listed keys, at the times their reads report, or not OK and nothing
has changed. -/
def InitExact (H : KmHost) (m : OpenbaoKeyManager) (es : List KmEvent) (rc : KeyManagerRC)
    (m' : OpenbaoKeyManager) : Prop :=
  (rc = .ok → (∀ d k, m'.domainKeyMap.Holds d k ↔ Listed H es (keyName d k)) ∧
    ∀ d k t, m'.domainKeyMap.time? d k = some t → Reported H es d k t) ∧
  (rc ≠ .ok → m'.domainKeyMap = m.domainKeyMap ∧ m'.inited = m.inited ∧
    m'.domainCount = m.domainCount ∧ m'.exePath = m.exePath ∧ m'.accessToken = m.accessToken)

/-- The vault answered for exactly what it listed, and the map had nothing else: no read of
a listed key came back empty, no other name was taken for a key, no key was left over. -/
structure Complete (H : KmHost) (m : OpenbaoKeyManager) (es : List KmEvent) : Prop where
  read : ∀ d k, Listed H es (keyName d k) → ∃ t, Reported H es d k t
  named : ∀ d k t, Reported H es d k t → Listed H es (keyName d k)
  fresh : ∀ d k t, m.domainKeyMap.time? d k = some t →
    Listed H es (keyName d k) ∧ Reported H es d k t

/-- The object already held what an `Init` that got as far as the path `p` and then failed
writes to it. -/
structure HeldAlready (H : KmHost) (m : OpenbaoKeyManager) (accessToken : Bytes) (domainCount : Nat)
    (es : List KmEvent) (p : Bytes) : Prop where
  exePath : m.exePath = p
  accessToken : m.accessToken = tokenAfter m accessToken domainCount
  emptied : (∃ ev ∈ es, ReportsNoTime H ev) → m.domainKeyMap = ∅
  gathered : (¬ ∃ ev ∈ es, ReportsNoTime H ev) →
    ∀ d k t, Reported H es d k t → m.domainKeyMap.Holds d k

/-- What `Init` needs for its promise. -/
def InitMeets (H : KmHost) (m : OpenbaoKeyManager) (accessToken : Bytes) (domainCount : Nat)
    (es : List KmEvent) : Prop :=
  (Answered H es → Complete H m es) ∧
  (¬ Answered H es → ∀ p, (∃ ev ∈ es, AcceptsPath p ev) →
    HeldAlready H m accessToken domainCount es p)

/-- Where every command is answered, exactness asks for a complete answer. -/
theorem complete_iff {H : KmHost} {m m' : OpenbaoKeyManager} {tr : List KmEvent}
    (h : Gathers H m tr m') :
    ((∀ d k, m'.domainKeyMap.Holds d k ↔ Listed H tr (keyName d k)) ∧
      ∀ d k t, m'.domainKeyMap.time? d k = some t → Reported H tr d k t) ↔ Complete H m tr := by
  constructor
  · intro hboth
    obtain ⟨hholds, htimes⟩ := hboth
    constructor
    · intro d k hlisted
      obtain ⟨t, ht⟩ := DomainKeyMap.holds_iff_time?.mp ((hholds d k).mpr hlisted)
      exact ⟨t, htimes d k t ht⟩
    · intro d k t hreported
      exact (hholds d k).mp (h.added d k t hreported)
    · intro d k t ht
      have hkept := h.kept d k t ht
      exact ⟨(hholds d k).mp (DomainKeyMap.holds_iff_time?.mpr ⟨t, hkept⟩), htimes d k t hkept⟩
  · intro hcomplete
    refine ⟨fun d k => ⟨fun hholds => ?_, fun hlisted => ?_⟩, fun d k t ht => ?_⟩
    · obtain ⟨t, ht⟩ := DomainKeyMap.holds_iff_time?.mp hholds
      rcases h.origin d k t ht with hold | hreported
      · exact (hcomplete.fresh d k t hold).1
      · exact hcomplete.named d k t hreported
    · obtain ⟨t, hreported⟩ := hcomplete.read d k hlisted
      exact h.added d k t hreported
    · rcases h.origin d k t ht with hold | hreported
      · exact (hcomplete.fresh d k t hold).2
      · exact hreported

/-- A failure leaves the object as it was exactly where it held already what is written. -/
theorem heldAlready_iff {H : KmHost} {m m' : OpenbaoKeyManager} {accessToken : Bytes}
    {domainCount : Nat} {tr : List KmEvent} (h : InitFails H m accessToken domainCount tr m') :
    (m'.domainKeyMap = m.domainKeyMap ∧ m'.inited = m.inited ∧ m'.domainCount = m.domainCount ∧
        m'.exePath = m.exePath ∧ m'.accessToken = m.accessToken) ↔
      ∀ p, (∃ ev ∈ tr, AcceptsPath p ev) → HeldAlready H m accessToken domainCount tr p := by
  constructor
  · intro hboth p hp
    obtain ⟨hmap, -, -, hpath, htoken⟩ := hboth
    constructor
    · rw [← hpath]
      exact h.exePath p hp
    · rw [← htoken]
      exact h.accessToken ⟨p, hp⟩
    · intro hno
      rw [← hmap]
      exact h.emptied hno
    · intro hno d k t hreported
      rw [← hmap]
      exact (h.gathers hno).added d k t hreported
  · intro hheld
    by_cases hp : ∃ p, ∃ ev ∈ tr, AcceptsPath p ev
    · obtain ⟨p, hp⟩ := hp
      have hthis := hheld p hp
      refine ⟨?_, h.inited, h.domainCount, ?_, ?_⟩
      · by_cases hno : ∃ ev ∈ tr, ReportsNoTime H ev
        · rw [h.emptied hno, hthis.emptied hno]
        · exact (h.gathers hno).unchanged (hthis.gathered hno)
      · rw [h.exePath p hp, hthis.exePath]
      · rw [h.accessToken ⟨p, hp⟩, ← hthis.accessToken]
    · -- a path that is refused stops everything
      rw [h.refused hp]
      exact ⟨rfl, rfl, rfl, rfl, rfl⟩

/-- **When `Init` keeps its promise**: on a manager that is not inited, in whatever state,
exactly where what it needs for it is there. -/
theorem initExact_iff {H : KmHost} {m m' : OpenbaoKeyManager} {exePath accessToken : Bytes}
    {domainCount : Nat} {es : List KmEvent} {rc : KeyManagerRC} (hnot : m.inited = false)
    (htr : Traces (m.init H exePath accessToken domainCount) es (.ret (.ok rc, m'))) :
    InitExact H m es rc m' ↔ InitMeets H m accessToken domainCount es := by
  obtain ⟨tr, haround, htrace⟩ :=
    wp_iff.mp (init_traces H hnot exePath accessToken domainCount) _ _ htr
  have hends := htrace.ends
  -- the mutex is no event of either side
  have hlisted : ∀ name, Listed H es name ↔ Listed H tr name := fun _ => haround.exists_iff id id
  have hreported : ∀ d k t, Reported H es d k t ↔ Reported H tr d k t := fun _ _ _ =>
    haround.exists_iff id id
  have hpath : ∀ p, (∃ ev ∈ es, AcceptsPath p ev) ↔ ∃ ev ∈ tr, AcceptsPath p ev := fun _ =>
    haround.exists_iff id id
  have hno : (∃ ev ∈ es, ReportsNoTime H ev) ↔ ∃ ev ∈ tr, ReportsNoTime H ev :=
    haround.exists_iff id id
  have hfails : (∃ ev ∈ es, FailsRead ev) ↔ ∃ ev ∈ tr, FailsRead ev := haround.exists_iff id id
  have hlist : (∃ ev ∈ es, Readable H ev) ↔ ∃ ev ∈ tr, Readable H ev := haround.exists_iff id id
  have hanswered : Answered H es ↔ rc = .ok := by
    rw [hends.ok_iff]
    exact ⟨fun h => ⟨hlist.mp h.listing, mt hfails.mpr h.reads, mt hno.mpr h.times⟩,
      fun h => ⟨hlist.mpr h.listing, mt hfails.mp h.reads, mt hno.mp h.times⟩⟩
  have hcomplete : Complete H m es ↔ Complete H m tr := by
    constructor
    · intro hboth
      obtain ⟨h₁, h₂, h₃⟩ := hboth
      simp only [hlisted, hreported] at h₁ h₂ h₃
      exact ⟨h₁, h₂, h₃⟩
    · intro hboth
      obtain ⟨h₁, h₂, h₃⟩ := hboth
      simp only [← hlisted, ← hreported] at h₁ h₂ h₃
      exact ⟨h₁, h₂, h₃⟩
  have hheld : ∀ p, HeldAlready H m accessToken domainCount es p ↔
      HeldAlready H m accessToken domainCount tr p := by
    intro p
    constructor
    · intro hboth
      obtain ⟨h₁, h₂, h₃, h₄⟩ := hboth
      simp only [hno, hreported] at h₃ h₄
      exact ⟨h₁, h₂, h₃, h₄⟩
    · intro hboth
      obtain ⟨h₁, h₂, h₃, h₄⟩ := hboth
      simp only [← hno, ← hreported] at h₃ h₄
      exact ⟨h₁, h₂, h₃, h₄⟩
  unfold InitExact InitMeets
  simp only [hanswered, hcomplete, hheld, hlisted, hreported, hpath]
  refine and_congr (forall_congr' fun hrc => ?_) (forall_congr' fun hrc => ?_)
  · exact complete_iff (hends.ok hrc)
  · exact heldAlready_iff (hends.failed hrc)

/-! ## When the answer is complete -/

/-- A read that succeeds with nothing, at which the loop stops as if it were through. -/
def ReadsNothing : KmEvent → Prop
  | ⟨.run _ _ (.read _ _), reply⟩ => Succeeded reply ∧ reply.2 = []
  | _ => False

/-- Unless a read comes back empty, the loop is through only when every key has reported. -/
theorem PrepareMapTrace.reported {H : KmHost} {m m' : OpenbaoKeyManager} {pairs : List (Nat × Nat)}
    {tr : List KmEvent} {o : Outcome Fault (KeyManagerRC × OpenbaoKeyManager)}
    (h : PrepareMapTrace H m pairs tr o) (ho : o = .ret (.ok, m'))
    (hsome : ∀ ev ∈ tr, ¬ ReadsNothing ev) : ∀ d k, (d, k) ∈ pairs → ∃ t, Reported H tr d k t := by
  induction h with
  | done => simp
  | failed hread => cases ho
  | empty hread hempty => exact absurd ⟨hread, hempty⟩ (hsome _ (List.mem_singleton.mpr rfl))
  | faulted hread htime => cases ho
  | noTime hread hsome htime => cases ho
  | @next m d k pairs reply time tr o hread hout htime hne hrest ih =>
    intro d' k' hmem
    rcases List.mem_cons.mp hmem with heq | hmem
    · obtain ⟨rfl, rfl⟩ := Prod.mk.inj heq
      exact ⟨time, _, List.mem_cons_self, ⟨rfl, rfl⟩, hread, hout, htime, hne⟩
    · obtain ⟨t, ev, hev, hreports⟩ :=
        ih ho (fun ev hev => hsome ev (List.mem_cons_of_mem _ hev)) d' k' hmem
      exact ⟨t, ev, List.mem_cons_of_mem _ hev, hreports⟩

/-- Only the keys of the listing are read. -/
theorem PrepareMapTrace.mem_of_reported {H : KmHost} {m : OpenbaoKeyManager}
    {pairs : List (Nat × Nat)} {tr : List KmEvent}
    {o : Outcome Fault (KeyManagerRC × OpenbaoKeyManager)} (h : PrepareMapTrace H m pairs tr o)
    {d k : Nat} {t : Int} (hreported : Reported H tr d k t) : (d, k) ∈ pairs := by
  obtain ⟨ev, hev, hreports⟩ := hreported
  induction h with
  | done => cases hev
  | @next m d' k' pairs reply time tr o hread hout htime hne hrest ih =>
    rcases List.mem_cons.mp hev with rfl | hev
    · obtain ⟨⟨rfl, rfl⟩, -⟩ := hreports
      exact List.mem_cons_self
    · exact List.mem_cons_of_mem _ (ih hev)
  | failed _ | empty _ _ | faulted _ _ | noTime _ _ _ =>
    obtain rfl := List.mem_singleton.mp hev
    obtain ⟨⟨rfl, rfl⟩, -⟩ := hreports
    exact List.mem_cons_self

/-- **A complete answer**: no read comes back empty, every name that looks like a key's is
one, and the map was empty. -/
theorem InitTrace.complete {H : KmHost} {m m' : OpenbaoKeyManager} {exePath accessToken : Bytes}
    {domainCount : Nat} {tr : List KmEvent}
    (h : InitTrace H m exePath accessToken domainCount tr (.ret (.ok .ok, m')))
    (hsome : ∀ ev ∈ tr, ¬ ReadsNothing ev)
    (hnames : ∀ name d k, Listed H tr name →
      strDecodeToDomainIdKeyId (cstr name) = .ok (.pair d k) → name = keyName d k)
    (hfresh : ∀ d k, ¬ m.domainKeyMap.Holds d k) : Complete H m tr := by
  have hempty : ∀ d k t, m.domainKeyMap.time? d k = some t →
      Listed H tr (keyName d k) ∧ Reported H tr d k t := fun d k t ht =>
    absurd (DomainKeyMap.holds_iff_time?.mpr ⟨t, ht⟩) (hfresh d k)
  cases h with
  | nothing htaken hlist hnone =>
    exact ⟨by simp [Listed, Lists, ran, hnone], by simp [Reported, Reports, ran], hempty⟩
  | @prepared p reply pairs tr m' htaken hlist hout hpairs hloop =>
    obtain ⟨elements, hparse, hdecode⟩ : ∃ elements, H.json.parse reply.2 = some (.array elements) ∧
        intPairLoop elements [] = .ok (some pairs) := by
      unfold getJsonFieldIntPairVec at hpairs
      split at hpairs
      next elements hparse =>
        split at hpairs
        · simp at hpairs
        · exact ⟨elements, hparse, hpairs⟩
      next => simp at hpairs
    obtain ⟨-, hnamed, horigin⟩ := intPairLoop_ok hdecode
    have hlisted : ∀ name, .string name ∈ elements → Listed H
        (⟨.canonicalPath exePath, some p⟩ :: ran (withAccess m p accessToken) .list reply :: tr)
        name := fun name hname =>
      ⟨_, List.mem_cons_of_mem _ List.mem_cons_self, hlist, hout, elements, hparse, hname⟩
    refine ⟨?_, ?_, hempty⟩
    · intro d k hboth
      obtain ⟨ev, hev, hlists⟩ := hboth
      rcases List.mem_cons.mp hev with rfl | hev
      · exact hlists.elim
      rcases List.mem_cons.mp hev with rfl | hev
      · obtain ⟨-, -, elements', hparse', hname⟩ := hlists
        obtain rfl := JsonValue.array.inj (Option.some.inj (hparse'.symm.trans hparse))
        obtain ⟨t, ev, hev, hreports⟩ := hloop.reported rfl
          (fun ev hev => hsome ev (List.mem_cons_of_mem _ (List.mem_cons_of_mem _ hev))) d k
          (hnamed d k hname)
        exact ⟨t, ev, List.mem_cons_of_mem _ (List.mem_cons_of_mem _ hev), hreports⟩
      · exact absurd hlists ((hloop.leaves rfl).onlyReads ev hev).not_lists
    · intro d k t hreported
      have hmem := hloop.mem_of_reported ((exists_mem_after id id).mp hreported)
      rcases horigin d k hmem with hnil | ⟨name, hname, hd⟩
      · cases hnil
      · rw [← hnames name d k (hlisted name hname) hd]
        exact hlisted name hname

/-! ## A read that fails half way -/

/-- The listing of two keys, and the reply to a `read`. -/
def listingParse (text : Bytes) : Option JsonValue :=
  if text = ascii "list" then some (.array [.string (keyName 0 0), .string (keyName 0 1)])
  else sampleParse text

def listingHost : KmHost where
  json := { parse := listingParse, write := fun _ => [] }
  ciphers := sampleCiphers

/-- A vault that lists two keys and lets only the first be read. -/
def halfAnswer : (c : Call) → c.Reply
  | .run _ _ .list => (0, ascii "list")
  | .run _ _ (.read 0 0) => (0, ascii "time")
  | .run _ _ _ => (1, [])
  | .acquire _ => ()
  | .release _ => ()
  | .time => 1800000000
  | .canonicalPath path => some path
  | .crypt => sampleWorld

/-- The code of an `Init` that returns, with the manager it leaves. -/
def initResult : Outcome Fault (Except StdException KeyManagerRC × OpenbaoKeyManager) →
    Option (KeyManagerRC × OpenbaoKeyManager)
  | .ret (.ok rc, m) => some (rc, m)
  | _ => none

theorem initResult_eq_some
    {o : Outcome Fault (Except StdException KeyManagerRC × OpenbaoKeyManager)} {rc : KeyManagerRC}
    {m : OpenbaoKeyManager} (h : initResult o = some (rc, m)) : o = .ret (.ok rc, m) := by
  unfold initResult at h
  split at h
  · obtain ⟨rfl, rfl⟩ := Prod.mk.inj (Option.some.inj h)
    rfl
  · cases h

/-- The failed `Init` keeps the first key. -/
theorem init_half : ∃ es m', Traces
    (({} : OpenbaoKeyManager).init listingHost (ascii "/bao") (ascii "token") 2) es
      (.ret (.ok .error, m')) ∧ m'.domainKeyMap.Holds 0 0 := by
  have hrun : (initResult (Prog.runWith halfAnswer
      (({} : OpenbaoKeyManager).init listingHost (ascii "/bao") (ascii "token") 2)).2).map
        (fun r => (r.1, decide (0 ∈ r.2.domainKeyMap.at' 0))) = some (.error, true) := by
    decide +kernel
  obtain ⟨⟨rc, m'⟩, hresult, heq⟩ := Option.map_eq_some_iff.mp hrun
  obtain ⟨rfl, hholds⟩ := Prod.mk.inj heq
  have hheld : 0 ∈ m'.domainKeyMap.at' 0 := of_decide_eq_true hholds
  have htr := traces_runWith halfAnswer
    (({} : OpenbaoKeyManager).init listingHost (ascii "/bao") (ascii "token") 2)
  rw [initResult_eq_some hresult] at htr
  exact ⟨_, m', htr, hheld⟩

theorem init_not_exact : ¬ ∀ (H : KmHost) (m m' : OpenbaoKeyManager) (exePath accessToken : Bytes)
    (domainCount : Nat) (es : List KmEvent) (rc : KeyManagerRC), m.inited = false →
      Traces (m.init H exePath accessToken domainCount) es (.ret (.ok rc, m')) →
      InitExact H m es rc m' := by
  intro hall
  obtain ⟨es, m', htr, hholds⟩ := init_half
  have hsame := ((hall _ _ _ _ _ _ _ _ rfl htr).2 (by decide)).1
  rw [hsame] at hholds
  exact absurd hholds Std.ExtTreeMap.not_mem_empty

theorem initExact_iff_half : ∃ es m', Traces
    (({} : OpenbaoKeyManager).init listingHost (ascii "/bao") (ascii "token") 2) es
      (.ret (.ok .error, m')) ∧
    (InitExact listingHost {} es .error m' ↔ InitMeets listingHost {} (ascii "token") 2 es) := by
  obtain ⟨es, m', htr, -⟩ := init_half
  exact ⟨es, m', htr, initExact_iff rfl htr⟩

end CdfCrypto.KeyManagement
