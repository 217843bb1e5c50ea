import ComSA.Motransaction.Needs

/-!
# Calls that take objects

When objects are taken at the calls, every name that the cache needs stays taken, and the
calls write to the cache what they would write without taking anything.
-/

namespace ComSA

open DeletedObjects ModifiedObjects TxState

structure NeedsTaken (env : TxEnv) (w : TxState) (c : Cache) : Prop where
  created : ∀ p o, p ≠ [] → objectAt p c.modified = some o → o.isNewObject = true →
    Taken env w (ObjectOf.immParentName env.tr ⟨p, o⟩, .one)
  deleted : ∀ p ∈ marked c.deleted, Taken env w (env.tr.mo2ImmDn p, .subtree)
  altered : ∀ p o, p ≠ [] → objectAt p c.modified = some o → o.isModifiedObject = true →
    Taken env w (env.tr.mo2ImmDn p, .one)

structure Kept (env : TxEnv) (imm : ImmTree) (w : TxState) : Prop where
  cacheInv : CacheInv env.tr imm w.cache
  parented : Parented env.tr w.cache
  sound : Sound env.tr w
  taken : env.lockMoForConfigChange = true → NeedsTaken env w w.cache

section
variable {env : TxEnv} {imm : ImmTree} {w : TxState} {c : Cache}

/-! ## Taken names -/

theorem isAdminOwnerFor_of_le {name : String} {s t : ImmScope} (hst : s.toNat ≤ t.toNat)
    (h : w.isAdminOwnerFor name t = true) : w.isAdminOwnerFor name s = true := by
  rw [isAdminOwnerFor] at h ⊢
  split at h
  · exact decide_eq_true (hst.trans (of_decide_eq_true h))
  · cases h

theorem Taken.one {name : String} (h : Taken env w (name, .subtree)) : Taken env w (name, .one) :=
  h.imp_right (Or.imp_left (@isAdminOwnerFor_of_le _ _ .one .subtree (by decide)))

theorem Taken.locked {name : String} {scope : ImmScope} {w' : TxState} {need : Need}
    (h : Taken env w need) (hl : Locked env name scope w w') : Taken env w' need :=
  h.imp_right (Or.imp_left (hl.keeps _ _))

theorem NeedsTaken.locked {name : String} {scope : ImmScope} {w' : TxState}
    (h : NeedsTaken env w c) (hl : Locked env name scope w w') : NeedsTaken env w' c :=
  ⟨fun p o hp ho hn => (h.created p o hp ho hn).locked hl, fun p hp => (h.deleted p hp).locked hl,
    fun p o hp ho hm => (h.altered p o hp ho hm).locked hl⟩

theorem Locked.cache {name : String} {scope : ImmScope} {w' : TxState}
    (hl : Locked env name scope w w') : w'.cache = w.cache := by
  rw [hl.rest]

theorem Kept.locked {name : String} {scope : ImmScope} {w' : TxState} (h : Kept env imm w)
    (hl : Locked env name scope w w') : Kept env imm w' := by
  refine ⟨?_, ?_, hl.sound h.sound, fun hflag => ?_⟩
  · rw [hl.cache]
    exact h.cacheInv
  · rw [hl.cache]
    exact h.parented
  · rw [hl.cache]
    exact (h.taken hflag).locked hl

theorem Kept.withCache (h : Kept env imm w) (hinv : CacheInv env.tr imm c) (hp : Parented env.tr c)
    (ht : env.lockMoForConfigChange = true → NeedsTaken env w c) :
    Kept env imm { w with cache := c } :=
  ⟨hinv, hp, h.sound, fun hflag => ⟨(ht hflag).created, (ht hflag).deleted, (ht hflag).altered⟩⟩

/-! ## Changes of the cache -/

theorem NeedsTaken.addNames (h : NeedsTaken env w c) {dn : List String}
    {f : ObjectData → ObjectData} {c' : Cache}
    (hmod : c'.modified = ModifiedObjects.addNames f dn c.modified) (hdel : c'.deleted = c.deleted)
    (hnew : (f ((objectAt dn c.modified).getD {})).isNewObject = true →
      Taken env w (ObjectOf.immParentName env.tr ⟨dn, f ((objectAt dn c.modified).getD {})⟩, .one))
    (haltered : (f ((objectAt dn c.modified).getD {})).isModifiedObject = true →
      Taken env w (env.tr.mo2ImmDn dn, .one)) : NeedsTaken env w c' := by
  -- An entry on the way is neither a new object nor an altered one.
  have hway : ∀ p o, objectAt p c'.modified = some o → p ≠ dn →
      objectAt p c.modified = some o ∨ o = {} := by
    intro p o ho hpd
    rw [hmod, objectAt_addNames, if_neg hpd] at ho
    split at ho
    · cases hq : objectAt p c.modified with
      | none =>
        rw [hq] at ho
        exact Or.inr (Option.some.inj ho).symm
      | some o' =>
        rw [hq] at ho
        exact Or.inl ho
    · exact Or.inl ho
  have hself : ∀ o, objectAt dn c'.modified = some o →
      o = f ((objectAt dn c.modified).getD {}) := by
    intro o ho
    rw [hmod, objectAt_addNames, if_pos rfl] at ho
    exact (Option.some.inj ho).symm
  refine ⟨fun p o hp ho hn => ?_, ?_, fun p o hp ho hm => ?_⟩
  · by_cases hpd : p = dn
    · subst hpd
      obtain rfl := hself o ho
      exact hnew hn
    · rcases hway p o ho hpd with ho | rfl
      · exact h.created p o hp ho hn
      · cases hn
  · rw [hdel]
    exact h.deleted
  · by_cases hpd : p = dn
    · subst hpd
      obtain rfl := hself o ho
      exact haltered hm
    · rcases hway p o ho hpd with ho | rfl
      · exact h.altered p o hp ho hm
      · cases hm

theorem NeedsTaken.set (h : NeedsTaken env w c) {dn : List String} (hdn : dn ≠ [])
    (ht : Taken env w (env.tr.mo2ImmDn dn, .one)) (immName name : String)
    (v : MoAttributeValueContainer) : NeedsTaken env w
      { c with modified := ModifiedObjects.insert dn immName name v c.modified } := by
  refine h.addNames rfl rfl (fun hn => ?_) fun _ => ht
  rw [isNewObject_asAltered] at hn
  rw [ObjectOf.immParentName, asAltered_parentName]
  cases hq : objectAt dn c.modified with
  | none =>
    rw [hq] at hn
    cases hn
  | some o =>
    rw [hq] at hn
    exact h.created dn o hdn hq hn

theorem NeedsTaken.setInitialAttributes (h : NeedsTaken env w c) {dn : List String} (hdn : dn ≠ [])
    (ht : Taken env w (env.tr.mo2ImmDn dn, .one))
    (attributes : List (String × MoAttributeValueContainer)) (ret : MafReturn) :
    NeedsTaken env w (ComSA.setInitialAttributes env.tr dn attributes ret c).2 := by
  induction attributes generalizing ret c with
  | nil => exact h
  | cons a rest ih =>
    rw [ComSA.setInitialAttributes, setImmMoAttribute_eq]
    split
    · by_cases hset : env.tr.isDnListValid dn a.1 = true ∧ c.isDeleted dn = false
      · rw [if_pos hset]
        exact ih (h.set hdn ht _ a.1 a.2) ret
      · rw [if_neg hset]
        exact ih h _
    · exact ih h ret

theorem NeedsTaken.recordCreation (h : NeedsTaken env w c) {m : CreateCall}
    (ht : Taken env w (env.tr.mo2ImmDn m.parent, .one)) :
    NeedsTaken env w (recordCreation env.tr m c) := by
  by_cases hcov : Covers (active c.deleted) m.dn
  · rw [recordCreation_of_deleted hcov]
    refine ⟨h.created, ?_, h.altered⟩
    rw [Cache.removeDeletedObject, marked_remove]
    exact h.deleted
  · rw [recordCreation_of_not_deleted hcov]
    refine h.addNames rfl rfl (fun _ => ?_) fun hm => ?_
    · rw [ObjectOf.immParentName]
      split
      · exact Or.inl rfl
      · exact ht
    · rw [not_isModifiedObject_of_new (isNewObject_asNew _ _ _ _ _ _)] at hm
      cases hm

theorem NeedsTaken.deleteImmMo (h : NeedsTaken env w c) {dn : List String} (hdn : dn ≠ [])
    (hcov : ¬ Covers (active c.deleted) dn) (ht : Taken env w (env.tr.mo2ImmDn dn, .subtree))
    {c' : Cache} (hdel : ComSA.deleteImmMo env.tr dn c = some (.ok, c')) : NeedsTaken env w c' := by
  obtain ⟨hsub, hmarked⟩ := deleteImmMo_sub hdn hcov hdel
  refine ⟨fun p o hp ho => h.created p o hp (hsub p o ho), fun p hp => ?_,
    fun p o hp ho => h.altered p o hp (hsub p o ho)⟩
  rcases hmarked hp with rfl | hp
  · exact ht
  · exact h.deleted p hp

/-! ## Calls -/

theorem locked_lockForCall (name : String) (scope : ImmScope) (hclear : .cleared false ∉ w.answers) :
    Locked env name scope w (lockForCall env name scope w).2 ∧
      (env.lockMoForConfigChange = true → (lockForCall env name scope w).1 = .ok →
        Taken env (lockForCall env name scope w).2 (name, scope)) := by
  rw [lockForCall]
  split <;> rename_i h
  · obtain ⟨hl, ht⟩ := locked_lockDn name scope hclear
    exact ⟨hl, fun _ => ht⟩
  · refine ⟨locked_refl env name scope w, fun hflag _ => Or.inr (Or.inl ?_)⟩
    rw [hflag] at h
    simpa using h

theorem lockForCall_of_taken {name : String} {scope : ImmScope}
    (h : env.lockMoForConfigChange = true → Taken env w (name, scope)) :
    lockForCall env name scope w = (.ok, w) := by
  rw [lockForCall]
  split <;> rename_i hlock
  · rw [Bool.and_eq_true, Bool.not_eq_true'] at hlock
    rw [lockDn, checkSetAdminOwner]
    rcases h hlock.1 with hname | hown | hknown
    · rw [if_pos hname]
    · rw [hlock.2] at hown
      cases hown
    · by_cases hname : name = ""
      · rw [if_pos hname]
      · rw [if_neg hname, hlock.2, show env.immExists name = false from hknown]
        rfl
  · rfl

theorem releaseAdminOwner_of_not {name : String} {scope : ImmScope}
    (h : w.isAdminOwnerFor name scope = false) : releaseAdminOwner env name scope w = w := by
  rw [releaseAdminOwner, h]
  exact ite_self w

theorem unLockForCall_self (name : String) (scope : ImmScope) (c : Cache) :
    unLockForCall env (w.isAdminOwnerFor name scope) name scope { w with cache := c } =
      { w with cache := c } := by
  rw [unLockForCall]
  split <;> rename_i h
  · rw [Bool.and_eq_true, Bool.not_eq_true'] at h
    exact releaseAdminOwner_of_not h.2
  · rfl

theorem setImmMoAttribute_of_taken {dn : List String}
    (h : env.lockMoForConfigChange = true → Taken env w (env.tr.mo2ImmDn dn, .one)) (name : String)
    (v : MoAttributeValueContainer) : TxState.setImmMoAttribute env dn name v w =
      ((ComSA.setImmMoAttribute env.tr dn name v w.cache).1,
        { w with cache := (ComSA.setImmMoAttribute env.tr dn name v w.cache).2 }) := by
  rw [TxState.setImmMoAttribute]
  simp only [lockForCall_of_taken h]
  cases hvalid : env.tr.isDnListValid dn name with
  | false =>
    rw [ComSA.setImmMoAttribute, hvalid]
    rfl
  | true =>
    cases hset : ComSA.setImmMoAttribute env.tr dn name v w.cache with
    | mk r c' =>
      cases r with
      | ok => rfl
      | _ => simp [unLockForCall_self]

theorem setInitialAttributes_of_taken {dn : List String}
    (h : env.lockMoForConfigChange = true → Taken env w (env.tr.mo2ImmDn dn, .one))
    (attributes : List (String × MoAttributeValueContainer)) (ret : MafReturn) :
    TxState.setInitialAttributes env dn attributes ret w =
      ((ComSA.setInitialAttributes env.tr dn attributes ret w.cache).1,
        { w with cache := (ComSA.setInitialAttributes env.tr dn attributes ret w.cache).2 }) := by
  induction attributes generalizing ret w with
  | nil => rfl
  | cons a rest ih =>
    rw [TxState.setInitialAttributes, ComSA.setInitialAttributes, setImmMoAttribute_of_taken h]
    split
    · cases hset : ComSA.setImmMoAttribute env.tr dn a.1 a.2 w.cache with
      | mk r c' =>
        cases r <;> exact ih (by exact h) _
    · exact ih h ret

theorem createImmMo_locked {m : CreateCall} (hgraph : m.keyAttributeValue.toList.all isGraph = true)
    (hvalid : env.tr.isDnListValid m.parent m.className = true) {w₁ : TxState}
    (hlock : lockForCall env (env.tr.mo2ImmDn m.parent) .one w = (.ok, w₁))
    (ht : env.lockMoForConfigChange = true → Taken env w₁ (env.tr.mo2ImmDn m.dn, .one))
    (hok : (ComSA.createImmMo env.tr m w₁.cache).1 = .ok) : TxState.createImmMo env m w =
      (.ok, { w₁ with cache := (ComSA.createImmMo env.tr m w₁.cache).2 }) := by
  have hcreate := createImmMo_ok hok
  rw [hcreate] at hok
  rw [TxState.createImmMo, hgraph, hvalid, hcreate]
  simp only [hlock]
  rw [setInitialAttributes_of_taken (by exact ht)]
  simp [hok]

theorem Kept.taken_new (h : Kept env imm w) (hm : env.Models imm) {m : CreateCall}
    (hcreates : Creates env.tr (content imm w.cache) m) (hflag : env.lockMoForConfigChange = true) :
    Taken env w (env.tr.mo2ImmDn m.dn, .one) := by
  by_cases hcov : Covers (active w.cache.deleted) m.dn
  · have hmem := mem_active_of_covered hcov hcreates.above
    exact ((h.taken hflag).deleted m.dn (active_subset_marked _ hmem)).one
  · refine Or.inr (Or.inr ?_)
    rw [hm.known m.dn m.dn_ne_nil, ← Bool.not_eq_true]
    intro hsome
    have := (h.cacheInv.isSome_iff m.dn_ne_nil).mpr ⟨hcov, Or.inr hsome⟩
    rw [hcreates.absent] at this
    cases this

theorem Kept.createImmMo (h : Kept env imm w) (hm : env.Models imm) (hclear : .cleared false ∉ w.answers)
    {m : CreateCall} (hcreates : m.keyAttributeValue.toList.all isGraph = true →
      env.tr.isDnListValid m.parent m.className = true → Creates env.tr (content imm w.cache) m) :
    Kept env imm (TxState.createImmMo env m w).2 := by
  cases hgraph : m.keyAttributeValue.toList.all isGraph with
  | false =>
    rw [TxState.createImmMo, hgraph]
    exact h
  | true =>
    cases hvalid : env.tr.isDnListValid m.parent m.className with
    | false =>
      rw [TxState.createImmMo, hgraph, hvalid]
      exact h
    | true =>
      obtain ⟨hl, ht⟩ := locked_lockForCall (env.tr.mo2ImmDn m.parent) .one hclear
      cases hlock : lockForCall env (env.tr.mo2ImmDn m.parent) .one w with
      | mk r w₁ =>
        rw [hlock] at hl ht
        have hkept : Kept env imm w₁ := h.locked hl
        have hc := hcreates hgraph hvalid
        rw [← hl.cache] at hc
        have hok := hc.createImmMo_ok hkept.cacheInv hgraph hvalid
        by_cases hr : r = .ok
        swap
        · -- IMM refused, and nothing was written.
          rw [TxState.createImmMo, hgraph, hvalid]
          simp only [hlock]
          cases r <;> first | exact absurd rfl hr | exact hkept
        subst hr
        rw [createImmMo_locked hgraph hvalid hlock (hkept.taken_new hm hc) hok]
        refine hkept.withCache (hc.cacheInv hkept.cacheInv hm.closed hok) ?_ fun hflag => ?_
        · rw [createImmMo_ok hok]
          exact (hkept.parented.recordCreation hc).setInitialAttributes m.dn_ne_nil _ _
        · rw [createImmMo_ok hok]
          exact ((hkept.taken hflag).recordCreation (ht hflag rfl)).setInitialAttributes m.dn_ne_nil
            (hkept.taken_new hm hc hflag) _ _

theorem Kept.setImmMoAttribute (h : Kept env imm w) (hm : env.Models imm)
    (hclear : .cleared false ∉ w.answers) {dn : List String} (hdn : dn ≠ []) {name : String}
    (hsome : env.tr.isDnListValid dn name = true → (content imm w.cache dn).isSome = true)
    (v : MoAttributeValueContainer) : Kept env imm (TxState.setImmMoAttribute env dn name v w).2 := by
  rw [TxState.setImmMoAttribute]
  cases hvalid : env.tr.isDnListValid dn name with
  | false => exact h
  | true =>
    obtain ⟨hl, ht⟩ := locked_lockForCall (env.tr.mo2ImmDn dn) .one hclear
    simp only
    cases hlock : lockForCall env (env.tr.mo2ImmDn dn) .one w with
    | mk r w₁ =>
      rw [hlock] at hl ht
      have hkept : Kept env imm w₁ := h.locked hl
      have hs := hsome hvalid
      rw [← hl.cache] at hs
      have hcov := ((hkept.cacheInv.isSome_iff hdn).mp hs).1
      rw [← Cache.isDeleted_iff, Bool.not_eq_true] at hcov
      have hset := @setImmMoAttribute_eq env.tr dn name v w₁.cache
      rw [if_pos ⟨hvalid, hcov⟩] at hset
      cases r with
      | ok =>
        simp only [hset]
        exact hkept.withCache (hkept.cacheInv.set hm.closed hdn hs name v)
          (hkept.parented.set hdn _ name v) fun hflag =>
            (hkept.taken hflag).set hdn (ht hflag rfl) _ name v
      | _ => exact hkept

theorem Kept.deleteImmMo (h : Kept env imm w) (hm : env.Models imm)
    (hclear : .cleared false ∉ w.answers) (dn : Dn)
    (hsome : env.tr.isDnListValid dn.parts "" = true →
      (content imm w.cache dn.parts).isSome = true) {r : MafReturn} {w' : TxState}
    (hdel : TxState.deleteImmMo env dn.parts w = some (r, w')) : Kept env imm w' := by
  rw [TxState.deleteImmMo] at hdel
  cases hvalid : env.tr.isDnListValid dn.parts "" with
  | false =>
    rw [hvalid] at hdel
    obtain ⟨rfl, rfl⟩ := Prod.mk.inj (Option.some.inj hdel)
    exact h
  | true =>
    obtain ⟨hl, ht⟩ := locked_lockForCall (env.tr.mo2ImmDn dn.parts) .subtree hclear
    rw [hvalid] at hdel
    cases hlock : lockForCall env (env.tr.mo2ImmDn dn.parts) .subtree w with
    | mk r₁ w₁ =>
      rw [hlock] at hl ht hdel
      have hkept : Kept env imm w₁ := h.locked hl
      have hs := hsome hvalid
      rw [← hl.cache] at hs
      have hcov := ((hkept.cacheInv.isSome_iff dn.nonempty).mp hs).1
      cases r₁ with
      | ok =>
        obtain ⟨⟨r₂, c'⟩, hdelete, hr⟩ := Option.map_eq_some_iff.mp hdel
        obtain rfl := deleteImmMo_ok hvalid hdelete
        obtain ⟨rfl, rfl⟩ := Prod.mk.inj hr
        exact hkept.withCache (deleteImmMo_spec hkept.cacheInv hm.closed dn.nonempty hs hdelete).1
          (hkept.parented.deleteImmMo dn.nonempty hcov hdelete) fun hflag =>
            (hkept.taken hflag).deleteImmMo dn.nonempty hcov (ht hflag rfl) hdelete
      | _ =>
        obtain ⟨rfl, rfl⟩ := Prod.mk.inj (Option.some.inj hdel)
        exact hkept

end

/-! ## What the calls leave alone -/

structure Quiet (w w' : TxState) : Prop where
  log : w'.log = w.log
  finalModified : w'.finalModified = w.finalModified
  released : w'.released = w.released
  answers : w'.answers ⊆ w.answers

theorem Quiet.refl (w : TxState) : Quiet w w := ⟨rfl, rfl, rfl, fun _ h => h⟩

theorem Quiet.trans {w₁ w₂ w₃ : TxState} (h : Quiet w₁ w₂) (h' : Quiet w₂ w₃) : Quiet w₁ w₃ :=
  ⟨h'.log.trans h.log, h'.finalModified.trans h.finalModified, h'.released.trans h.released,
    fun _ ha => h.answers (h'.answers ha)⟩

theorem quiet_nextAnswer (w : TxState) : Quiet w w.nextAnswer.2 := by
  have hanswers := nextAnswer_answers w
  rw [nextAnswer_rest w]
  exact ⟨rfl, rfl, rfl, hanswers⟩

theorem quiet_removeAdminOwnerFor (name : String) (scope : ImmScope) (w : TxState) :
    Quiet w (w.removeAdminOwnerFor name scope) := by
  rw [removeAdminOwnerFor]
  split <;> exact ⟨rfl, rfl, rfl, fun _ h => h⟩

theorem quiet_releaseAdminOwner (env : TxEnv) (name : String) (scope : ImmScope) (w : TxState) :
    Quiet w (releaseAdminOwner env name scope w) := by
  rw [releaseAdminOwner]
  split
  · exact .refl w
  split
  · have hnext := quiet_nextAnswer w
    split <;> rename_i h <;> rw [h] at hnext
    · have hdisown : Quiet w (TxState.disown env.tr name scope _) :=
        ⟨hnext.log, hnext.finalModified, hnext.released, hnext.answers⟩
      exact hdisown.trans (quiet_removeAdminOwnerFor name scope _)
    · exact hnext
  · exact .refl w

theorem quiet_lockDn (env : TxEnv) (name : String) (scope : ImmScope) (w : TxState) :
    Quiet w (lockDn env name scope w).2 := by
  have hcheck : Quiet w (checkSetAdminOwner env name scope w).2 := by
    rw [checkSetAdminOwner]
    split
    · exact .refl w
    split
    · exact .refl w
    split
    · exact .refl w
    have hnext := quiet_nextAnswer w
    split <;> rename_i h <;> rw [h] at hnext <;>
      exact ⟨hnext.log, hnext.finalModified, hnext.released, hnext.answers⟩
  rw [lockDn]
  split <;> rename_i h <;> rw [h] at hcheck <;> exact hcheck

theorem quiet_lockForCall (env : TxEnv) (name : String) (scope : ImmScope) (w : TxState) :
    Quiet w (lockForCall env name scope w).2 := by
  rw [lockForCall]
  split
  · exact quiet_lockDn env name scope w
  · exact .refl w

theorem quiet_unLockForCall (env : TxEnv) (isAdminOwner : Bool) (name : String) (scope : ImmScope)
    (w : TxState) : Quiet w (unLockForCall env isAdminOwner name scope w) := by
  rw [unLockForCall]
  split
  · exact quiet_releaseAdminOwner env name scope w
  · exact .refl w

theorem quiet_setImmMoAttribute (env : TxEnv) (dn : List String) (name : String)
    (v : MoAttributeValueContainer) (w : TxState) :
    Quiet w (TxState.setImmMoAttribute env dn name v w).2 := by
  rw [TxState.setImmMoAttribute]
  split
  · exact .refl w
  have hlock := quiet_lockForCall env (env.tr.mo2ImmDn dn) .one w
  simp only
  generalize lockForCall env (env.tr.mo2ImmDn dn) .one w = r at hlock ⊢
  obtain ⟨ret, w₁⟩ := r
  have hcache : ∀ c, Quiet w { w₁ with cache := c } :=
    fun _ => ⟨hlock.log, hlock.finalModified, hlock.released, hlock.answers⟩
  cases ret with
  | ok =>
    simp only
    split
    · exact hcache _
    · exact (hcache _).trans (quiet_unLockForCall env _ _ _ _)
  | _ => exact hlock

theorem quiet_setInitialAttributes (env : TxEnv) (dn : List String)
    (attributes : List (String × MoAttributeValueContainer)) (ret : MafReturn) (w : TxState) :
    Quiet w (TxState.setInitialAttributes env dn attributes ret w).2 := by
  induction attributes generalizing ret w with
  | nil => exact .refl w
  | cons a rest ih =>
    rw [TxState.setInitialAttributes]
    split
    · have hset := quiet_setImmMoAttribute env dn a.1 a.2 w
      split <;> rename_i h <;> rw [h] at hset <;> exact hset.trans (ih _ _)
    · exact ih ret w

theorem quiet_createImmMo (env : TxEnv) (m : CreateCall) (w : TxState) :
    Quiet w (TxState.createImmMo env m w).2 := by
  rw [TxState.createImmMo]
  split
  · exact .refl w
  split
  · exact .refl w
  have hlock := quiet_lockForCall env (env.tr.mo2ImmDn m.parent) .one w
  simp only
  generalize lockForCall env (env.tr.mo2ImmDn m.parent) .one w = r at hlock ⊢
  obtain ⟨ret, w₁⟩ := r
  cases ret with
  | ok =>
    have hrecord : Quiet w { w₁ with cache := recordCreation env.tr m w₁.cache } :=
      ⟨hlock.log, hlock.finalModified, hlock.released, hlock.answers⟩
    have hset := hrecord.trans (quiet_setInitialAttributes env m.dn m.initialAttributes .ok _)
    simp only
    split <;> rename_i h <;> rw [h] at hset
    · exact hset
    · exact hset.trans (quiet_unLockForCall env _ _ _ _)
  | _ => exact hlock

theorem quiet_deleteImmMo (env : TxEnv) {dn : List String} {w w' : TxState} {r : MafReturn}
    (h : TxState.deleteImmMo env dn w = some (r, w')) : Quiet w w' := by
  rw [TxState.deleteImmMo] at h
  split at h
  · obtain ⟨rfl, rfl⟩ := Prod.mk.inj (Option.some.inj h)
    exact .refl w
  have hlock := quiet_lockForCall env (env.tr.mo2ImmDn dn) .subtree w
  generalize lockForCall env (env.tr.mo2ImmDn dn) .subtree w = x at h hlock
  obtain ⟨ret, w₁⟩ := x
  cases ret with
  | ok =>
    obtain ⟨x, _, hx⟩ := Option.map_eq_some_iff.mp h
    obtain ⟨rfl, rfl⟩ := Prod.mk.inj hx
    exact ⟨hlock.log, hlock.finalModified, hlock.released, hlock.answers⟩
  | _ =>
    obtain ⟨rfl, rfl⟩ := Prod.mk.inj (Option.some.inj h)
    exact hlock

theorem deleteImmMo_isSome {env : TxEnv} {dn : Dn} {w : TxState}
    (h : env.tr.isDnListValid dn.parts "" = true →
      ¬ (dn.parts.length = 1 ∧ w.cache.isInCache dn.parts = true))
    (hclear : .cleared false ∉ w.answers) :
    (TxState.deleteImmMo env dn.parts w).isSome = true := by
  rw [TxState.deleteImmMo]
  cases hvalid : env.tr.isDnListValid dn.parts "" with
  | false => rfl
  | true =>
    have hl := (@locked_lockForCall env w (env.tr.mo2ImmDn dn.parts) .subtree hclear).1
    generalize lockForCall env (env.tr.mo2ImmDn dn.parts) .subtree w = r at hl ⊢
    obtain ⟨ret, w₁⟩ := r
    cases ret with
    | ok =>
      change (Option.map _ (ComSA.deleteImmMo env.tr dn.parts w₁.cache)).isSome = true
      rw [Option.isSome_map, Option.isSome_iff_ne_none]
      intro hnone
      refine h hvalid ?_
      rw [← show w₁.cache = w.cache from hl.cache]
      exact ((deleteImmMo_eq_none_iff dn).mp hnone).2
    | _ => rfl

end ComSA
