import ComSA.Lib.UntilFailure
import ComSA.Motransaction.Calls
import ComSA.Motransaction.Prepare

/-!
# Committing a transaction

The calls of a transaction change a tree of objects one after the other. Each keeps the
operations that would be prepared such that they turn the objects of IMM into that tree,
unless it goes wrong.
-/

namespace ComSA

open DeletedObjects ModifiedObjects

/-- The calls of a transaction, and the direct writes to the cache that take a struct apart. -/
inductive SessionCall where
  | create (m : CreateCall)
  | delete (dn : Dn)
  | set (dn : Dn) (attributeName : String) (v : MoAttributeValueContainer)
  | update (dn : Dn) (immName attributeName : String) (v : MoAttributeValueContainer)

/-- The cache, as long as what the code did is defined, and the tree of the session. -/
abbrev SessionState := Option Cache × ImmTree

namespace SessionCall

def run (tr : Translator) (c : Cache) : SessionCall → Option (MafReturn × Cache)
  | create m => some (createImmMo tr m c)
  | delete dn => deleteImmMo tr dn.parts c
  | set dn attributeName v => some (setImmMoAttribute tr dn.parts attributeName v c)
  | update dn immName attributeName v =>
    match c.updateObjectAttribute dn.parts immName attributeName v with
    | (true, c) => some (.ok, c)
    | (false, c) => some (.failure, c)

def tree (tr : Translator) (t : ImmTree) : SessionCall → ImmTree
  | create m => fun p => if p = m.dn then some (m.given tr) else t p
  | delete dn => fun p => if dn.parts <+: p then none else t p
  | set dn attributeName v | update dn _ attributeName v => fun p =>
    if p = dn.parts then (t p).map (setAttribute attributeName v.values) else t p

def step (tr : Translator) (s : SessionState) (call : SessionCall) : SessionState :=
  match s.1.bind (call.run tr) with
  | none => (none, s.2)
  | some (.ok, c) => (some c, call.tree tr s.2)
  | some (_, c) => (some c, s.2)

def Fine (tr : Translator) (imm : ImmTree) (s : SessionState) : SessionCall → Prop
  | create m => m.keyAttributeValue.toList.all isGraph = true →
    tr.isDnListValid m.parent m.className = true → Creates tr s.2 m ∧
      -- A deleted object comes back with its old children and attributes.
      ∀ c, s.1 = some c → c.isDeleted m.dn = true →
        (∀ x, (imm (m.dn ++ [x])).isSome = true → m.dn ++ [x] ∈ marked c.deleted) ∧
          (imm m.dn).map (withInitial tr m.dn m.initialAttributes) = some (m.given tr)
  | delete dn => tr.isDnListValid dn.parts "" = true →
    (s.2 dn.parts).isSome = true ∧
    (∀ c, s.1 = some c → ¬ (dn.parts.length = 1 ∧ c.isInCache dn.parts = true)) ∧
    ∀ q, dn.parts <+: q → q ≠ dn.parts → tr.isImmRoot q = true → imm q = none
  | set dn attributeName _ => tr.isDnListValid dn.parts attributeName = true →
    (∀ c, s.1 = some c → c.isDeleted dn.parts = false) → (s.2 dn.parts).isSome = true
  | update dn immName _ v => (s.2 dn.parts).isSome = true ∧
    ∀ c, s.1 = some c → TakesName tr c dn.parts immName v

def Accepted (tr : Translator) (c : Cache) : SessionCall → Prop
  | create m => m.keyAttributeValue.toList.all isGraph = true ∧ tr.isDnListValid m.parent m.className = true
  | delete dn => tr.isDnListValid dn.parts "" = true
  | set dn attributeName _ => tr.isDnListValid dn.parts attributeName = true ∧ c.isDeleted dn.parts = false
  | update dn _ _ _ => c.isDeleted dn.parts = false

def Good (tr : Translator) (imm : ImmTree) (s : SessionState) (call : SessionCall) : Prop :=
  (∀ c, s.1 = some c → call.Accepted tr c) ∧ call.Fine tr imm s

end SessionCall

/-- What would be prepared now can be applied to IMM, and gives the tree of the session. -/
def CommitsSession (tr : Translator) (imm : ImmTree) (s : SessionState) : Prop :=
  ∃ c, s.1 = some c ∧ Along (CcbOp.apply tr) (CcbOp.Ok tr) imm (prepareOps tr c) ∧
    (prepareOps tr c).foldl (CcbOp.apply tr) imm = s.2

/-- The cache is as it should be, has another property, and shows the tree of the session. -/
def ShowsSession (tr : Translator) (imm : ImmTree) (J : Cache → Prop) (s : SessionState) : Prop :=
  ∃ c, s.1 = some c ∧ CacheInv tr imm c ∧ J c ∧ s.2 = content imm c

/-- A property of the cache that calls keep which do not go wrong. -/
structure KeptByCalls (tr : Translator) (imm : ImmTree) (J : Cache → Prop) : Prop where
  create : ∀ {c m}, J c → Creates tr (content imm c) m → (createImmMo tr m c).1 = .ok → J (createImmMo tr m c).2
  delete : ∀ {c dn c'}, J c → dn ≠ [] → ¬ Covers (active c.deleted) dn →
    (∀ q, dn <+: q → q ≠ dn → tr.isImmRoot q = true → imm q = none) → deleteImmMo tr dn c = some (.ok, c') → J c'
  write : ∀ {c dn}, J c → dn ≠ [] → ∀ immName name v,
    J { c with modified := ModifiedObjects.insert dn immName name v c.modified }

section
variable {tr : Translator} {imm : ImmTree} {c : Cache} {J : Cache → Prop}

/-! ## What the lists need -/

theorem CommitInv.set (h : CommitInv tr imm c) {dn : List String} (hdn : dn ≠ [])
    (immName name : String) (v : MoAttributeValueContainer) : CommitInv tr imm
      { c with modified := ModifiedObjects.insert dn immName name v c.modified } :=
  ⟨h.parented.set hdn immName name v, h.noRoot⟩

theorem CommitInv.createImmMo (h : CommitInv tr imm c) {m : CreateCall}
    (hm : Creates tr (content imm c) m) (hok : (ComSA.createImmMo tr m c).1 = .ok) :
    CommitInv tr imm (ComSA.createImmMo tr m c).2 := by
  rw [createImmMo_ok hok]
  refine ⟨(h.parented.recordCreation hm).setInitialAttributes m.dn_ne_nil _ _, ?_⟩
  rw [(setInitialAttributes_keeps tr m.dn m.initialAttributes .ok _).1]
  by_cases hcov : Covers (active c.deleted) m.dn
  · rw [recordCreation_of_deleted hcov, Cache.removeDeletedObject, marked_remove]
    exact h.noRoot
  · rw [recordCreation_of_not_deleted hcov]
    exact h.noRoot

theorem CommitInv.deleteImmMo (h : CommitInv tr imm c) {dn : List String} (hdn : dn ≠ [])
    (hcov : ¬ Covers (active c.deleted) dn)
    (hroot : ∀ q, dn <+: q → q ≠ dn → tr.isImmRoot q = true → imm q = none) {c' : Cache}
    (hdel : ComSA.deleteImmMo tr dn c = some (.ok, c')) : CommitInv tr imm c' := by
  refine ⟨h.parented.deleteImmMo hdn hcov hdel, fun p hp => ?_⟩
  rcases (deleteImmMo_sub hdn hcov hdel).2 hp with rfl | hp
  · exact hroot
  · exact h.noRoot p hp

theorem commitInv_kept (tr : Translator) (imm : ImmTree) : KeptByCalls tr imm (CommitInv tr imm) :=
  ⟨fun h hm hok => h.createImmMo hm hok, fun h hdn hcov hroot hdel => h.deleteImmMo hdn hcov hroot hdel,
    fun h hdn immName name v => h.set hdn immName name v⟩

/-! ## Steps -/

theorem showsSession_create (himm : imm.Closed) (hJ : KeptByCalls tr imm J) {s : SessionState}
    (h : ShowsSession tr imm J s) {m : CreateCall} (hfine : (SessionCall.create m).Fine tr imm s) :
    ShowsSession tr imm J ((SessionCall.create m).step tr s) := by
  obtain ⟨⟨o, t⟩, c, rfl, hinv, hcom, rfl⟩ := s, h
  rw [SessionCall.step, Option.bind_some, SessionCall.run]
  by_cases hearly : m.keyAttributeValue.toList.all isGraph = true ∧
      tr.isDnListValid m.parent m.className = true
  swap
  · -- The call was rejected before it wrote anything.
    rw [createImmMo]
    cases hgraph : m.keyAttributeValue.toList.all isGraph with
    | false => exact ⟨c, rfl, hinv, hcom, rfl⟩
    | true =>
      rw [Bool.eq_false_iff.mpr fun hv => hearly ⟨hgraph, hv⟩]
      exact ⟨c, rfl, hinv, hcom, rfl⟩
  obtain ⟨hm, hundelete⟩ := hfine hearly.1 hearly.2
  have hok := hm.createImmMo_ok hinv hearly.1 hearly.2
  have hcommit := hJ.create hcom hm hok
  suffices hshow : CacheInv tr imm (createImmMo tr m c).2 ∧ ∀ p,
      content imm (createImmMo tr m c).2 p = if p = m.dn then some (m.given tr) else content imm c p by
    obtain ⟨hinv', hcont⟩ := hshow
    cases hres : createImmMo tr m c with
    | mk r c' =>
      rw [hres] at hok hinv' hcont hcommit
      obtain rfl : r = .ok := hok
      exact ⟨c', rfl, hinv', hcommit, funext fun p => (hcont p).symm⟩
  by_cases hcov : Covers (active c.deleted) m.dn
  · have hmem := mem_active_of_covered hcov hm.above
    obtain ⟨hchildren, hattr⟩ := hundelete c rfl ((c.isDeleted_iff _).mpr hcov)
    obtain ⟨hinv', hcont⟩ := createImmMo_of_deleted hinv himm hok hmem
    refine ⟨hinv', fun p => ?_⟩
    rw [hcont]
    split <;> rename_i hp
    · rw [hp, hattr]
    · split <;> rename_i hpre
      · rw [content_of_deleted ⟨m.dn, hmem, hpre⟩]
        exact undeleted_eq_none hinv himm hmem hchildren hpre hp
      · rfl
  · exact createImmMo_of_not_deleted hinv himm hok hcov hm.absent hm.above

theorem showsSession_delete (himm : imm.Closed) (hJ : KeptByCalls tr imm J) {s : SessionState}
    (h : ShowsSession tr imm J s) {dn : Dn} (hfine : (SessionCall.delete dn).Fine tr imm s) :
    ShowsSession tr imm J ((SessionCall.delete dn).step tr s) := by
  obtain ⟨⟨o, t⟩, c, rfl, hinv, hcom, rfl⟩ := s, h
  rw [SessionCall.step, Option.bind_some, SessionCall.run]
  cases hvalid : tr.isDnListValid dn.parts "" with
  | false =>
    rw [deleteImmMo, hvalid]
    exact ⟨c, rfl, hinv, hcom, rfl⟩
  | true =>
    obtain ⟨hsome, htop, hroot⟩ := hfine hvalid
    cases hrun : deleteImmMo tr dn.parts c with
    | none => exact absurd ((deleteImmMo_eq_none_iff dn).mp hrun).2 (htop c rfl)
    | some r =>
      obtain ⟨ret, c'⟩ := r
      obtain rfl := deleteImmMo_ok hvalid hrun
      obtain ⟨hinv', hcont⟩ := deleteImmMo_spec hinv himm dn.nonempty hsome hrun
      have hcov := ((hinv.isSome_iff dn.nonempty).mp hsome).1
      exact ⟨c', rfl, hinv', hJ.delete hcom dn.nonempty hcov hroot hrun, funext fun p => (hcont p).symm⟩

theorem showsSession_set (himm : imm.Closed) (hJ : KeptByCalls tr imm J) {s : SessionState}
    (h : ShowsSession tr imm J s) {dn : Dn} {name : String} {v : MoAttributeValueContainer}
    (hfine : (SessionCall.set dn name v).Fine tr imm s) :
    ShowsSession tr imm J ((SessionCall.set dn name v).step tr s) := by
  obtain ⟨⟨o, t⟩, c, rfl, hinv, hcom, rfl⟩ := s, h
  rw [SessionCall.step, Option.bind_some, SessionCall.run]
  by_cases hset : tr.isDnListValid dn.parts name = true ∧ c.isDeleted dn.parts = false
  · have hsome := hfine hset.1 fun c₀ hc₀ => Option.some.inj hc₀ ▸ hset.2
    have hcall := @setImmMoAttribute_eq tr dn.parts name v c
    rw [if_pos hset] at hcall
    obtain ⟨hinv', _, hcont⟩ := setImmMoAttribute_spec hinv himm dn.nonempty hsome hcall
    rw [hcall]
    exact ⟨_, rfl, hinv', hJ.write hcom dn.nonempty _ name v, funext fun p => (hcont p).symm⟩
  · rw [setImmMoAttribute_eq, if_neg hset]
    exact ⟨c, rfl, hinv, hcom, rfl⟩

theorem showsSession_update (himm : imm.Closed) (hJ : KeptByCalls tr imm J) {s : SessionState}
    (h : ShowsSession tr imm J s) {dn : Dn} {immName name : String} {v : MoAttributeValueContainer}
    (hfine : (SessionCall.update dn immName name v).Fine tr imm s) :
    ShowsSession tr imm J ((SessionCall.update dn immName name v).step tr s) := by
  obtain ⟨⟨o, t⟩, c, rfl, hinv, hcom, rfl⟩ := s, h
  obtain ⟨hsome, hname⟩ := hfine
  rw [SessionCall.step, Option.bind_some, SessionCall.run, Cache.updateObjectAttribute]
  by_cases hdel : c.isDeleted dn.parts = true
  · rw [if_pos hdel]
    exact ⟨c, rfl, hinv, hcom, rfl⟩
  · rw [if_neg hdel]
    let c' := { c with modified := ModifiedObjects.insert dn.parts immName name v c.modified }
    have hcont := @content_asAltered imm c c' dn.parts immName name v dn.nonempty hsome rfl rfl
    exact ⟨c', rfl, hinv.update himm dn.nonempty hsome (hname c rfl) name,
      hJ.write hcom dn.nonempty immName name v, funext fun p => (hcont p).symm⟩

theorem showsSession_step (himm : imm.Closed) (hJ : KeptByCalls tr imm J) {s : SessionState}
    (h : ShowsSession tr imm J s) {call : SessionCall} (hfine : call.Fine tr imm s) :
    ShowsSession tr imm J (call.step tr s) := by
  cases call with
  | create m => exact showsSession_create himm hJ h hfine
  | delete dn => exact showsSession_delete himm hJ h hfine
  | set dn name v => exact showsSession_set himm hJ h hfine
  | update dn immName name v => exact showsSession_update himm hJ h hfine

theorem ShowsSession.run_of_good {t : ImmTree} (hshows : ShowsSession tr imm J (some c, t)) {call : SessionCall}
    (h : call.Good tr imm (some c, t)) : ∃ c', call.run tr c = some (.ok, c') := by
  obtain ⟨c₀, hc₀, hinv, -, rfl⟩ := hshows
  obtain rfl := Option.some.inj hc₀
  obtain ⟨haccepted, hfine⟩ := h
  have haccepted := haccepted c rfl
  cases call with
  | create m =>
    have hok := (hfine haccepted.1 haccepted.2).1.createImmMo_ok hinv haccepted.1 haccepted.2
    exact ⟨_, congrArg some (Prod.ext hok rfl)⟩
  | delete dn =>
    obtain ⟨-, htop, -⟩ := hfine haccepted
    cases hrun : deleteImmMo tr dn.parts c with
    | none => exact absurd ((deleteImmMo_eq_none_iff dn).mp hrun).2 (htop c rfl)
    | some r =>
      obtain ⟨ret, c'⟩ := r
      obtain rfl := deleteImmMo_ok haccepted hrun
      exact ⟨c', hrun⟩
  | set dn name v =>
    have hcall := @setImmMoAttribute_eq tr dn.parts name v c
    rw [if_pos ⟨haccepted.1, haccepted.2⟩] at hcall
    exact ⟨_, congrArg some hcall⟩
  | update dn immName name v =>
    refine ⟨{ c with modified := ModifiedObjects.insert dn.parts immName name v c.modified }, ?_⟩
    rw [SessionCall.run, Cache.updateObjectAttribute, if_neg]
    rw [show c.isDeleted dn.parts = false from haccepted]
    exact Bool.false_ne_true

theorem untilFailure_of_good (himm : imm.Closed) (hJ : KeptByCalls tr imm J)
    {run : Cache → SessionCall → Option (MafReturn × Cache)}
    (hrun : ∀ c call c', call.run tr c = some (.ok, c') → run c call = some (.ok, c')) {calls : List SessionCall}
    {t : ImmTree} (hshows : ShowsSession tr imm J (some c, t))
    (hgood : Along (SessionCall.step tr) (SessionCall.Good tr imm) (some c, t) calls) :
    ∃ c', untilFailure .ok run calls c = some (.ok, c') ∧
      calls.foldl (SessionCall.step tr) (some c, t) = (some c', calls.foldl (SessionCall.tree tr) t) ∧
      ShowsSession tr imm J (some c', calls.foldl (SessionCall.tree tr) t) := by
  induction calls generalizing c t with
  | nil => exact ⟨c, rfl, rfl, hshows⟩
  | cons call calls ih =>
    obtain ⟨hcall, hrest⟩ := hgood
    obtain ⟨c₁, hc₁⟩ := hshows.run_of_good hcall
    have hstate : call.step tr (some c, t) = (some c₁, call.tree tr t) := by
      rw [SessionCall.step, Option.bind_some, hc₁]
    have hstep := showsSession_step himm hJ hshows hcall.2
    rw [hstate] at hstep hrest
    rw [untilFailure_cons_of_ok (hrun c call c₁ hc₁), List.foldl_cons, List.foldl_cons, hstate]
    exact ih hstep hrest

/-! ## The first state -/

def SessionState.initial (imm : ImmTree) : SessionState := (some {}, imm)

theorem content_empty (himm : imm.Closed) : content imm {} = imm := by
  funext p
  by_cases hp : p = []
  · rw [hp, content_nil, himm.root]
  · have hcov : ¬ Covers (active ({} : Cache).deleted) p := by
      rintro ⟨q, ⟨d, hd, _⟩, _⟩
      simp at hd
    exact content_of_none hp hcov ((objectAt_empty p).trans (if_neg hp))

theorem commitInv_empty (tr : Translator) (imm : ImmTree) : CommitInv tr imm {} := by
  refine ⟨fun p o hp ho => absurd ho (no_object_of_empty p o hp), ?_⟩
  rintro p ⟨d, hd, _⟩
  simp at hd

theorem commitsSession_of_shows (himm : imm.Closed) (hinj : Function.Injective tr.mo2ImmDn)
    {s : SessionState} (h : ShowsSession tr imm (CommitInv tr imm) s) : CommitsSession tr imm s := by
  obtain ⟨⟨o, t⟩, c, rfl, hinv, hcom, rfl⟩ := s, h
  exact ⟨c, rfl, hinv.prepareOps hcom himm hinj⟩

theorem showsSession_initial (tr : Translator) (himm : imm.Closed) :
    ShowsSession tr imm (CommitInv tr imm) (.initial imm) :=
  ⟨{}, rfl, cacheInv_empty tr imm, commitInv_empty tr imm, (content_empty himm).symm⟩

end

def Sample.createFoo2 : CreateCall := ⟨["ManagedElement=1"], "Foo", "fooId", "2", []⟩

end ComSA
