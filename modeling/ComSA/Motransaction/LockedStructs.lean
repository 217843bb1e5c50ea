import ComSA.Motransaction.LockedCalls

/-!
# Calls with structs that take objects

What writing structs keeps of the record of taken objects, as long as no call that it makes
goes wrong.
-/

namespace ComSA

open DeletedObjects ModifiedObjects TxState

/-! ## Legal calls -/

namespace SessionCall

def Legal (tr : Translator) (imm : ImmTree) (c : Cache) : SessionCall → Prop
  | create m => m.keyAttributeValue.toList.all isGraph = true →
    tr.isDnListValid m.parent m.className = true → Creates tr (content imm c) m
  | delete dn => tr.isDnListValid dn.parts "" = true → (content imm c dn.parts).isSome = true ∧
    ¬ (dn.parts.length = 1 ∧ c.isInCache dn.parts = true)
  | set dn attributeName _ => tr.isDnListValid dn.parts attributeName = true →
    (content imm c dn.parts).isSome = true
  | update dn immName _ v => (content imm c dn.parts).isSome = true ∧ TakesName tr c dn.parts immName v

/-- The calls that are made on the way of another one, about the object `dn`. -/
def Inner (dn : List String) : SessionCall → Prop
  | create m => m.initialAttributes = []
  | update dn' _ _ _ => dn'.parts = dn
  | _ => True

def Ready (env : TxEnv) (w : TxState) : SessionCall → Prop
  | create m => m.initialAttributes = []
  | update dn _ _ _ => env.lockMoForConfigChange = true → Taken env w (env.tr.mo2ImmDn dn.parts, .one)
  | _ => True

theorem Inner.ready {env : TxEnv} {w : TxState} {dn : List String} {call : SessionCall} (h : call.Inner dn)
    (ht : env.lockMoForConfigChange = true → Taken env w (env.tr.mo2ImmDn dn, .one)) : call.Ready env w := by
  cases call with
  | create m => exact h
  | update dn' immName name v =>
    obtain rfl : dn'.parts = dn := h
    exact ht
  | _ => trivial

def Valid (tr : Translator) : SessionCall → Prop
  | create m => m.keyAttributeValue.toList.all isGraph = true ∧ tr.isDnListValid m.parent m.className = true
  | delete dn => tr.isDnListValid dn.parts "" = true
  | set dn attributeName _ => tr.isDnListValid dn.parts attributeName = true
  | update .. => True

end SessionCall

/-- Calls one after the other, up to the first failure, are legal. -/
def LegalCalls (tr : Translator) (imm : ImmTree) (run : Cache → SessionCall → Option (MafReturn × Cache))
    (c : Cache) (calls : List SessionCall) : Prop :=
  Along (goOn .ok run) (fun s call => ∀ c, s = some c → call.Legal tr imm c) (some c) calls

section
variable (env : BridgeEnv)

/-- The object is there. Where a struct is written, the calls that write it are legal. -/
def SetLegal (imm : ImmTree) (dn : String) (c : Cache) : String × AttributeValue → Prop
  | (attributeName, .simple v) => (SessionCall.set (.ofString dn) attributeName v).Legal env.tr imm c
  | (attributeName, .struct values) => env.tr.isDnListValid (splitDn dn) attributeName = true →
    (content imm c (splitDn dn)).isSome = true ∧
    ∀ refs, structReferences env.toStructEnv dn attributeName c = some refs →
      LegalCalls env.tr imm (SessionCall.answered env.tr) c
        (structCalls env.toStructEnv dn attributeName values refs)

def setGoOn (dn : String) (s : Option Cache) (a : String × AttributeValue) : Option Cache :=
  s.bind fun c => (Bridge.setImmMoAttribute env dn a.1 a.2 c).map Prod.snd

/-- The names that an attribute is set with are good ones. Of a struct, so are those of the calls that
write it. -/
def SetValid (dn : String) (c : Cache) : String × AttributeValue → Prop
  | (attributeName, .simple _) => env.tr.isDnListValid (splitDn dn) attributeName = true
  | (attributeName, .struct values) => env.tr.isDnListValid (splitDn dn) attributeName = true ∧
    ∃ refs, structReferences env.toStructEnv dn attributeName c = some refs ∧
      ∀ call ∈ structCalls env.toStructEnv dn attributeName values refs, call.Valid env.tr

def recorded (c : Cache) (m : CreateMoCall) : Option Cache :=
  (creationCalls env m).foldl (goOn .ok fun c call => SessionCall.run env.tr c call) (some c)

def knownAttributes (m : CreateMoCall) : List (String × AttributeValue) :=
  m.initialAttributes.filter fun a => a.1 ∈ env.tr.comAttributeList m.dn

def CreateValid (c : Cache) (m : CreateMoCall) : Prop :=
  (∀ call ∈ creationCalls env m, call.Valid env.tr) ∧
  Along (setGoOn env (joinDn m.dn)) (fun s a => ∀ c, s = some c → SetValid env (joinDn m.dn) c a)
    (recorded env c m) (knownAttributes env m)

/-- The calls that record the object are legal, and so are those that set its attributes. -/
def CreateLegal (imm : ImmTree) (c : Cache) (m : CreateMoCall) : Prop :=
  LegalCalls env.tr imm (fun c call => SessionCall.run env.tr c call) c (creationCalls env m) ∧
  Along (setGoOn env (joinDn m.dn)) (fun s a => ∀ c, s = some c → SetLegal env imm (joinDn m.dn) c a)
    (recorded env c m) (knownAttributes env m)

end

section
variable {env : TxEnv} {imm : ImmTree} {w w' : TxState} {dn : List String} {call : SessionCall}

/-! ## What stays -/

theorem quiet_runLocked {ret : MafReturn} (h : runLocked env w call = some (ret, w')) : Quiet w w' := by
  cases call with
  | create m =>
    have hquiet := quiet_createImmMo env m w
    rwa [show TxState.createImmMo env m w = (ret, w') from Option.some.inj h] at hquiet
  | delete dn => exact quiet_deleteImmMo env h
  | set dn name v =>
    have hquiet := quiet_setImmMoAttribute env dn.parts name v w
    rwa [show TxState.setImmMoAttribute env dn.parts name v w = (ret, w') from Option.some.inj h] at hquiet
  | update dn immName name v =>
    rw [runLocked] at h
    split at h <;> cases h <;> exact ⟨rfl, rfl, rfl, fun _ ha => ha⟩

theorem quiet_answeredLocked {ret : MafReturn} (h : answeredLocked env w call = some (ret, w')) : Quiet w w' := by
  obtain ⟨r, hrun, hr⟩ := Option.map_eq_some_iff.mp h
  cases hr
  exact quiet_runLocked hrun

theorem quiet_untilFailure {run : TxState → SessionCall → Option (MafReturn × TxState)}
    (hrun : ∀ w call ret w', run w call = some (ret, w') → Quiet w w') {calls : List SessionCall} {ret : MafReturn}
    (h : untilFailure .ok run calls w = some (ret, w')) : Quiet w w' :=
  untilFailure_rel Quiet.refl (fun _ _ _ => Quiet.trans) (fun w call r hr => hrun w call r.1 r.2 hr) h

theorem quiet_unLockOnFailure {isAdminOwner : Bool} {name : String} {r r' : MafReturn × TxState}
    (h : LockedBridge.unLockOnFailure env isAdminOwner name r = r') : Quiet r.2 r'.2 := by
  rw [LockedBridge.unLockOnFailure] at h
  split at h <;> rw [← h]
  · exact .refl _
  · exact quiet_unLockForCall env isAdminOwner name .one r.2

theorem quiet_writeStruct {dn attributeName : String} {values : List StructValue} {ret : MafReturn}
    (h : LockedBridge.writeStructToImm env dn attributeName values w = some (ret, w')) : Quiet w w' := by
  unfold LockedBridge.writeStructToImm at h
  extract_lets write at h
  have hwrite : ∀ refs, write refs = some (ret, w') → Quiet w w' := fun refs =>
    quiet_untilFailure fun _ _ _ _ => quiet_answeredLocked
  split at h
  · exact hwrite _ h
  · exact hwrite _ h
  · cases h
    exact .refl w

theorem quiet_setLocked {dn name : String} {v : AttributeValue} {ret : MafReturn}
    (h : LockedBridge.setImmMoAttribute env dn name v w = some (ret, w')) : Quiet w w' := by
  cases v with
  | simple v => exact @quiet_runLocked env w w' (.set (.ofString dn) name v) ret h
  | struct values =>
    rw [LockedBridge.setImmMoAttribute] at h
    split at h
    · cases h
      exact .refl w
    have hlock := quiet_lockForCall env (env.tr.mo2ImmDn (splitDn dn)) .one w
    dsimp only at h
    generalize lockForCall env (env.tr.mo2ImmDn (splitDn dn)) .one w = r₁ at h hlock
    obtain ⟨ret₁, w₁⟩ := r₁
    by_cases hok : ret₁ = .ok
    · subst hok
      obtain ⟨r, hr, hret⟩ := Option.map_eq_some_iff.mp h
      have hwritten : Quiet w₁ r.2 := by
        split at hr
        · cases hr
          exact .refl w₁
        · exact quiet_writeStruct hr
      exact hlock.trans (hwritten.trans (quiet_unLockOnFailure hret))
    · cases ret₁ <;> first | exact absurd rfl hok | (cases h; exact hlock)

theorem quiet_initialLocked {dn : String} {as : List (String × AttributeValue)} {ret ret' : MafReturn}
    (h : LockedBridge.setInitialAttributes env dn as ret w = some (ret', w')) : Quiet w w' := by
  induction as generalizing ret w with
  | nil =>
    cases h
    exact .refl _
  | cons a as ih =>
    obtain ⟨name, v⟩ := a
    rw [LockedBridge.setInitialAttributes] at h
    split at h
    · obtain ⟨r, hset, hrest⟩ := Option.bind_eq_some_iff.mp h
      exact (quiet_setLocked hset).trans (ih hrest)
    · exact ih h

theorem quiet_createLocked {m : CreateMoCall} {ret : MafReturn}
    (h : LockedBridge.createImmMo env m w = some (ret, w')) : Quiet w w' := by
  have hbare := quiet_createImmMo env m.bare w
  rw [LockedBridge.createImmMo] at h
  generalize TxState.createImmMo env m.bare w = r₀ at h hbare
  obtain ⟨ret₀, w₁⟩ := r₀
  by_cases hok : ret₀ = .ok
  · subst hok
    obtain ⟨r, hr, hret⟩ := Option.map_eq_some_iff.mp h
    obtain ⟨r₁, hstructs, hr⟩ := Option.bind_eq_some_iff.mp hr
    have hquiet := quiet_untilFailure (fun _ _ _ _ => quiet_runLocked) hstructs
    have hset : Quiet r₁.2 r.2 := by
      split at hr
      · exact quiet_initialLocked hr
      · cases hr
        exact .refl _
    exact hbare.trans (hquiet.trans (hset.trans (quiet_unLockOnFailure hret)))
  · cases ret₀ <;> first | exact absurd rfl hok | (cases h; exact hbare)

def Grants (w : TxState) : Prop := ∀ a ∈ w.answers, a = .ok ∨ a = .cleared true

theorem Grants.quiet (h : Grants w) (hquiet : Quiet w w') : Grants w' := fun a ha => h a (hquiet.answers ha)

theorem lockForCall_of_grants (h : Grants w) (name : String) (scope : ImmScope) :
    (lockForCall env name scope w).1 = .ok := by
  rw [lockForCall]
  split
  swap
  · rfl
  have hnext : w.nextAnswer.1 = .ok ∨ w.nextAnswer.1 = .cleared true := (nextAnswer_mem w).elim Or.inl (h _)
  have htaken :
      (checkSetAdminOwner env name scope w).1 = .ok ∨ (checkSetAdminOwner env name scope w).1 = .notExist := by
    rw [checkSetAdminOwner]
    split
    · exact Or.inl rfl
    split
    · exact Or.inl rfl
    split
    · exact Or.inr rfl
    generalize w.nextAnswer = r at hnext
    obtain ⟨a, w₁⟩ := r
    obtain rfl | rfl : a = .ok ∨ a = .cleared true := hnext <;> exact Or.inl rfl
  rw [lockDn]
  generalize checkSetAdminOwner env name scope w = r at htaken
  obtain ⟨e, w₁⟩ := r
  obtain rfl | rfl : e = .ok ∨ e = .notExist := htaken <;> rfl

/-! ## Calls on the way -/

theorem inner_structCalls {dn attributeName : String} {values : List StructValue} {refs : List String}
    (hcall : call ∈ structCalls env.toStructEnv dn attributeName values refs) : call.Inner (splitDn dn) := by
  have hdelete : ∀ structDns, call ∈ deleteCalls structDns → call.Inner (splitDn dn) := by
    intro structDns hmem
    obtain ⟨structDn, -, rfl⟩ := List.mem_map.mp hmem
    trivial
  have hwrite : ∀ attributeTypeName ids ix values,
      call ∈ instanceCalls dn attributeName attributeTypeName ids ix values → call.Inner (splitDn dn) := by
    intro attributeTypeName ids ix values hmem
    induction values generalizing ix with
    | nil => cases hmem
    | cons value values ih =>
      rcases List.mem_append.mp hmem with hcreate | hmem
      · split at hcreate
        · cases hcreate
        · rw [List.mem_singleton.mp hcreate]
          rfl
      · rcases List.mem_append.mp hmem with hset | hmem
        · obtain ⟨member, -, rfl⟩ := List.mem_map.mp hset
          trivial
        · exact ih (ix + 1) hmem
  have hreference : ∀ refs, call ∈ [referenceCall env.tr dn attributeName refs] → call.Inner (splitDn dn) := by
    intro refs hmem
    rw [List.mem_singleton.mp hmem]
    rfl
  rw [structCalls] at hcall
  split at hcall
  · exact (List.mem_append.mp hcall).elim (hdelete _) (hreference _)
  · rcases List.mem_append.mp hcall with hmem | hmem
    · exact hdelete _ hmem
    · exact (List.mem_append.mp hmem).elim (hwrite _ _ _ _) (hreference _)

theorem inner_firstInstanceCalls {m : CreateMoCall} {as : List (String × String)}
    (hcall : call ∈ firstInstanceCalls m as) : call.Inner m.dn := by
  obtain ⟨a, -, hmem⟩ := List.mem_flatMap.mp hcall
  rcases List.mem_cons.mp hmem with rfl | hmem
  · rfl
  · rw [List.mem_singleton.mp hmem]
    rfl

theorem lockForCall_cases (name : String) (scope : ImmScope) (hclear : .cleared false ∉ w.answers) :
    (∃ w₁, lockForCall env name scope w = (.ok, w₁) ∧ Locked env name scope w w₁) ∨
    ∃ ret w₁, lockForCall env name scope w = (ret, w₁) ∧ Locked env name scope w w₁ ∧
      ret ≠ .ok ∧ ret ≠ .alreadyExist ∧ env.lockMoForConfigChange = true ∧ ¬ Grants w := by
  have hl := (@locked_lockForCall env w name scope hclear).1
  have hret : (lockForCall env name scope w).1 ≠ .alreadyExist ∧
      (env.lockMoForConfigChange = false → (lockForCall env name scope w).1 = .ok) := by
    rw [lockForCall]
    cases env.lockMoForConfigChange with
    | false => exact ⟨by simp, fun _ => rfl⟩
    | true =>
      refine ⟨?_, fun h => by cases h⟩
      split
      · rw [lockDn]
        split <;> simp
      · simp
  have hgrants := fun h : Grants w => @lockForCall_of_grants env w h name scope
  generalize lockForCall env name scope w = r at hl hret hgrants ⊢
  obtain ⟨ret, w₁⟩ := r
  by_cases hok : ret = .ok
  · subst hok
    exact Or.inl ⟨w₁, rfl, hl⟩
  · refine Or.inr ⟨ret, w₁, rfl, hl, hok, hret.1, ?_, fun h => hok (hgrants h)⟩
    by_contra hflag
    exact hok (hret.2 (Bool.eq_false_iff.mpr hflag))

/-- What a legal call that is made on the way does: it is rejected, IMM refuses the object, or the cache is
written as without taking objects. -/
inductive CallOutcome (env : TxEnv) (w : TxState) (call : SessionCall) : Option (MafReturn × TxState) → Prop
  | rejected (ret : MafReturn) (hret : ret ≠ .ok ∧ ret ≠ .alreadyExist) (hbad : ¬ call.Valid env.tr)
    (hrun : call.run env.tr w.cache = some (ret, w.cache)) : CallOutcome env w call (some (ret, w))
  | refused (ret : MafReturn) (hret : ret ≠ .ok ∧ ret ≠ .alreadyExist) (name : String) (scope : ImmScope)
    (w₁ : TxState) (hl : Locked env name scope w w₁) (hflag : env.lockMoForConfigChange = true) (hno : ¬ Grants w) :
    CallOutcome env w call (some (ret, w₁))
  | done (name : String) (scope : ImmScope) (w₁ : TxState) (hl : Locked env name scope w w₁) (c : Cache)
    (hrun : call.run env.tr w.cache = some (.ok, c)) : CallOutcome env w call (some (.ok, { w₁ with cache := c }))

theorem outcome_create {m : CreateCall} (hbare : m.initialAttributes = []) (hclear : .cleared false ∉ w.answers) :
    CallOutcome env w (.create m) (runLocked env w (.create m)) := by
  rw [runLocked, TxState.createImmMo]
  cases hgraph : m.keyAttributeValue.toList.all isGraph with
  | false =>
    refine .rejected _ (by decide) (fun hvalid => ?_) (by rw [SessionCall.run, ComSA.createImmMo, hgraph]; rfl)
    rw [SessionCall.Valid, hgraph] at hvalid
    cases hvalid.1
  | true =>
    cases hvalid : env.tr.isDnListValid m.parent m.className with
    | false =>
      refine .rejected _ (by decide) (fun hvalid' => ?_)
        (by rw [SessionCall.run, ComSA.createImmMo, hgraph, hvalid]; rfl)
      rw [SessionCall.Valid, hvalid] at hvalid'
      cases hvalid'.2
    | true =>
      rcases @lockForCall_cases env w (env.tr.mo2ImmDn m.parent) .one hclear with ⟨w₁, hlock, hl⟩ |
        ⟨ret, w₁, hlock, hl, hok, hexist, hflag, hno⟩
      · have hrun : SessionCall.run env.tr w.cache (.create m) = some (.ok, recordCreation env.tr m w.cache) := by
          rw [SessionCall.run, ComSA.createImmMo, hgraph, hvalid, hbare]
          rfl
        simp only [hlock, hbare]
        rw [← hl.cache] at hrun
        exact .done _ _ w₁ hl _ (hl.cache ▸ hrun)
      · simp only [hlock]
        cases ret <;> first | exact absurd rfl hok | exact .refused _ ⟨hok, hexist⟩ _ _ w₁ hl hflag hno

theorem outcome_delete {dn : Dn} (hlegal : (SessionCall.delete dn).Legal env.tr imm w.cache)
    (hclear : .cleared false ∉ w.answers) : CallOutcome env w (.delete dn) (runLocked env w (.delete dn)) := by
  rw [runLocked, TxState.deleteImmMo]
  cases hvalid : env.tr.isDnListValid dn.parts "" with
  | false =>
    refine .rejected _ (by decide) (fun hvalid' => ?_) (by rw [SessionCall.run, ComSA.deleteImmMo, hvalid]; rfl)
    rw [SessionCall.Valid, hvalid] at hvalid'
    cases hvalid'
  | true =>
    obtain ⟨-, htop⟩ := hlegal hvalid
    rcases @lockForCall_cases env w (env.tr.mo2ImmDn dn.parts) .subtree hclear with ⟨w₁, hlock, hl⟩ |
      ⟨ret, w₁, hlock, hl, hok, hexist, hflag, hno⟩
    · cases hdelete : ComSA.deleteImmMo env.tr dn.parts w.cache with
      | none => exact absurd ((deleteImmMo_eq_none_iff dn).mp hdelete).2 htop
      | some r =>
        obtain ⟨ret, c⟩ := r
        obtain rfl := deleteImmMo_ok hvalid hdelete
        simp only [hlock, hl.cache, hdelete]
        exact .done _ _ w₁ hl c hdelete
    · simp only [hlock]
      cases ret <;> first | exact absurd rfl hok | exact .refused _ ⟨hok, hexist⟩ _ _ w₁ hl hflag hno

theorem outcome_set (h : Kept env imm w) {dn : Dn} {name : String} {v : MoAttributeValueContainer}
    (hlegal : (SessionCall.set dn name v).Legal env.tr imm w.cache) (hclear : .cleared false ∉ w.answers) :
    CallOutcome env w (.set dn name v) (runLocked env w (.set dn name v)) := by
  rw [runLocked, TxState.setImmMoAttribute]
  cases hvalid : env.tr.isDnListValid dn.parts name with
  | false =>
    refine .rejected _ (by decide) (fun hvalid' => ?_)
      (by rw [SessionCall.run, ComSA.setImmMoAttribute, hvalid]; rfl)
    rw [SessionCall.Valid, hvalid] at hvalid'
    cases hvalid'
  | true =>
    have hcov := ((h.cacheInv.isSome_iff dn.nonempty).mp (hlegal hvalid)).1
    rw [← Cache.isDeleted_iff, Bool.not_eq_true] at hcov
    have hset := @setImmMoAttribute_eq env.tr dn.parts name v w.cache
    rw [if_pos ⟨hvalid, hcov⟩] at hset
    rcases @lockForCall_cases env w (env.tr.mo2ImmDn dn.parts) .one hclear with ⟨w₁, hlock, hl⟩ |
      ⟨ret, w₁, hlock, hl, hok, hexist, hflag, hno⟩
    · simp only [hlock, hl.cache, hset]
      exact .done _ _ w₁ hl _ (congrArg some hset)
    · simp only [hlock]
      cases ret <;> first | exact absurd rfl hok | exact .refused _ ⟨hok, hexist⟩ _ _ w₁ hl hflag hno

theorem outcome_update (h : Kept env imm w) {dn : Dn} {immName name : String} {v : MoAttributeValueContainer}
    (hlegal : (SessionCall.update dn immName name v).Legal env.tr imm w.cache) :
    CallOutcome env w (.update dn immName name v) (runLocked env w (.update dn immName name v)) := by
  have hcov := ((h.cacheInv.isSome_iff dn.nonempty).mp hlegal.1).1
  rw [← Cache.isDeleted_iff] at hcov
  have hrun : SessionCall.run env.tr w.cache (.update dn immName name v) = some (.ok,
      { w.cache with modified := ModifiedObjects.insert dn.parts immName name v w.cache.modified }) := by
    rw [SessionCall.run, Cache.updateObjectAttribute, if_neg hcov]
  rw [runLocked, Cache.updateObjectAttribute, if_neg hcov]
  exact .done "" .one w (locked_refl env "" .one w) _ hrun

theorem outcome_of_legal (h : Kept env imm w) (hclear : .cleared false ∉ w.answers)
    (hlegal : call.Legal env.tr imm w.cache) (hready : call.Ready env w) :
    CallOutcome env w call (runLocked env w call) := by
  cases call with
  | create m => exact outcome_create hready hclear
  | delete dn => exact outcome_delete hlegal hclear
  | set dn name v => exact outcome_set h hlegal hclear
  | update dn immName name v => exact outcome_update h hlegal

/-! ## What is kept -/

theorem Kept.runLocked (h : Kept env imm w) (hm : env.Models imm) (hclear : .cleared false ∉ w.answers)
    (hlegal : call.Legal env.tr imm w.cache) (hready : call.Ready env w) {ret : MafReturn}
    (hrun : TxState.runLocked env w call = some (ret, w')) : Kept env imm w' := by
  cases call with
  | create m =>
    have hkept := h.createImmMo hm hclear hlegal
    rwa [show TxState.createImmMo env m w = (ret, w') from Option.some.inj hrun] at hkept
  | delete dn => exact h.deleteImmMo hm hclear dn (fun hvalid => (hlegal hvalid).1) hrun
  | set dn name v =>
    have hkept := h.setImmMoAttribute hm hclear dn.nonempty hlegal v
    rwa [show TxState.setImmMoAttribute env dn.parts name v w = (ret, w') from Option.some.inj hrun] at hkept
  | update dn immName name v =>
    obtain ⟨hsome, hname⟩ := hlegal
    have hcov := ((h.cacheInv.isSome_iff dn.nonempty).mp hsome).1
    rw [← Cache.isDeleted_iff] at hcov
    rw [TxState.runLocked, Cache.updateObjectAttribute, if_neg hcov] at hrun
    cases hrun
    exact h.withCache (h.cacheInv.update hm.closed dn.nonempty hsome hname name)
      (h.parented.set dn.nonempty immName name v) fun hflag =>
        (h.taken hflag).set dn.nonempty (hready hflag) immName name v

/-- The record is good, and IMM will not clear an owner and then refuse. -/
structure KeptClear (env : TxEnv) (imm : ImmTree) (w : TxState) : Prop where
  kept : Kept env imm w
  clear : .cleared false ∉ w.answers

def Granted (env : TxEnv) (ret : MafReturn) : Prop := env.lockMoForConfigChange = false ∨ ret = .ok

/-- A call of the locked bridge, compared with the same call without taking objects. It succeeds where its
names are good ones and IMM refuses nothing. -/
structure KeepsRecord (env : TxEnv) (imm : ImmTree) (w : TxState) (valid : Prop) (run : Option (MafReturn × Cache))
    (ret : MafReturn) (w' : TxState) : Prop where
  kept : KeptClear env imm w'
  taken : ret = .ok → ∀ need, Taken env w need → Taken env w' need
  cache : Granted env ret → run = some (ret, w'.cache)
  succeeds : Grants w → valid → ret = .ok

theorem keeps_runLocked (h : KeptClear env imm w) (hm : env.Models imm)
    (hlegal : call.Legal env.tr imm w.cache) (hready : call.Ready env w) :
    ∃ ret w', TxState.runLocked env w call = some (ret, w') ∧ ret ≠ .alreadyExist ∧
      KeepsRecord env imm w (call.Valid env.tr) (call.run env.tr w.cache) ret w' := by
  have houtcome := outcome_of_legal h.kept h.clear hlegal hready
  have hkept := fun ret w' => @Kept.runLocked env imm w w' call h.kept hm h.clear hlegal hready ret
  generalize TxState.runLocked env w call = r at houtcome hkept
  cases houtcome with
  | rejected ret hret hbad hrun =>
    exact ⟨ret, w, rfl, hret.2, ⟨h.kept, h.clear⟩, fun hok => absurd hok hret.1, fun _ => hrun,
      fun _ hvalid => absurd hvalid hbad⟩
  | refused ret hret name scope w₁ hl hflag hno =>
    refine ⟨ret, w₁, rfl, hret.2, ⟨hkept ret w₁ rfl, fun ha => h.clear (hl.answers ha)⟩, fun hok => absurd hok hret.1,
      fun hgranted => ?_, fun hgrants _ => absurd hgrants hno⟩
    rcases hgranted with hoff | hok
    · rw [hflag] at hoff
      cases hoff
    · exact absurd hok hret.1
  | done name scope w₁ hl c hrun =>
    refine ⟨.ok, _, rfl, nofun, ⟨hkept .ok _ rfl, fun ha => h.clear (hl.answers ha)⟩, fun _ need hneed => ?_,
      fun _ => hrun, fun _ _ => rfl⟩
    have htaken : Taken env w₁ need := hneed.locked hl
    exact htaken

theorem keeps_answeredLocked (h : KeptClear env imm w) (hm : env.Models imm)
    (hlegal : call.Legal env.tr imm w.cache) (hready : call.Ready env w) :
    ∃ ret w', answeredLocked env w call = some (ret, w') ∧
      KeepsRecord env imm w (call.Valid env.tr) (call.answered env.tr w.cache) ret w' := by
  obtain ⟨ret, w', hrun, hexist, hkeeps⟩ := keeps_runLocked h hm hlegal hready
  have hok : call.answer ret = .ok → ret = .ok := by
    cases call <;> cases ret <;> first | exact id | exact absurd rfl hexist | nofun
  refine ⟨call.answer ret, w', by rw [answeredLocked, hrun]; rfl, hkeeps.kept, fun h => hkeeps.taken (hok h),
    fun hgranted => ?_, fun hgrants hvalid => ?_⟩
  · rw [SessionCall.answered, hkeeps.cache (hgranted.imp_right hok)]
    rfl
  · rw [hkeeps.succeeds hgrants hvalid]
    cases call <;> rfl

theorem keeps_untilFailure {runL : TxState → SessionCall → Option (MafReturn × TxState)}
    {run : Cache → SessionCall → Option (MafReturn × Cache)}
    (hstep : ∀ w call, KeptClear env imm w → call.Legal env.tr imm w.cache → call.Ready env w →
      ∃ ret w', runL w call = some (ret, w') ∧
        KeepsRecord env imm w (call.Valid env.tr) (run w.cache call) ret w')
    (hquiet : ∀ w call ret w', runL w call = some (ret, w') → Quiet w w') {calls : List SessionCall}
    (h : KeptClear env imm w) (hlegal : LegalCalls env.tr imm run w.cache calls)
    (hinner : ∀ call ∈ calls, call.Inner dn)
    (ht : env.lockMoForConfigChange = true → Taken env w (env.tr.mo2ImmDn dn, .one)) :
    ∃ ret w', untilFailure .ok runL calls w = some (ret, w') ∧
      KeepsRecord env imm w (∀ call ∈ calls, call.Valid env.tr) (untilFailure .ok run calls w.cache) ret w' := by
  induction calls generalizing w with
  | nil => exact ⟨.ok, w, rfl, h, fun _ _ ht => ht, fun _ => rfl, fun _ _ => rfl⟩
  | cons call calls ih =>
    obtain ⟨hcall, hrest⟩ := hlegal
    obtain ⟨ret, w₁, hrun, hkeeps⟩ := hstep w call h (hcall w.cache rfl) ((hinner call List.mem_cons_self).ready ht)
    by_cases hok : ret = .ok
    · subst hok
      have hcache := hkeeps.cache (Or.inr rfl)
      rw [goOn_of_ok hcache] at hrest
      obtain ⟨ret, w', hruns, hkeeps'⟩ :=
        ih hkeeps.kept hrest (fun call hmem => hinner call (List.mem_cons_of_mem _ hmem))
        fun hflag => hkeeps.taken rfl _ (ht hflag)
      rw [untilFailure_cons_of_ok hrun, untilFailure_cons_of_ok hcache]
      exact ⟨ret, w', hruns, hkeeps'.kept, fun hok need ht => hkeeps'.taken hok need (hkeeps.taken rfl need ht),
        hkeeps'.cache, fun hgrants hvalid => hkeeps'.succeeds (hgrants.quiet (hquiet _ _ _ _ hrun))
          fun call hmem => hvalid call (List.mem_cons_of_mem _ hmem)⟩
    · refine ⟨ret, w₁, by rw [untilFailure_cons, hrun, Option.bind_some, if_neg hok], hkeeps.kept,
        fun h => absurd h hok, fun hgranted => ?_, fun hgrants hvalid => ?_⟩
      · rw [untilFailure_cons, hkeeps.cache hgranted, Option.bind_some, if_neg hok]
      · exact absurd (hkeeps.succeeds hgrants (hvalid call List.mem_cons_self)) hok

/-! ## Setting an attribute -/

/-- A call that does nothing: the name is not valid, or IMM refuses the object. -/
def SetRefused (env : TxEnv) (dn attributeName : String) (w : TxState) : Prop :=
  env.tr.isDnListValid (splitDn dn) attributeName = false ∨
    (lockForCall env (env.tr.mo2ImmDn (splitDn dn)) .one w).1 ≠ .ok

/-- A call whose names are good ones, where IMM refuses nothing, or one that does nothing. -/
def SetGranted (env : TxEnv) (dn : String) (a : String × AttributeValue) (w : TxState) : Prop :=
  SetRefused env dn a.1 w ∨ Grants w ∧ SetValid env.toBridgeEnv dn w.cache a

theorem unLockOnFailure_of_granted {r : MafReturn × TxState} (h : Granted env r.1) (isAdminOwner : Bool)
    (name : String) : LockedBridge.unLockOnFailure env isAdminOwner name r = r := by
  rw [LockedBridge.unLockOnFailure]
  split <;> rename_i hok
  · rfl
  · rw [unLockForCall, h.resolve_right hok]
    rfl

theorem unLockOnFailure_eq (isAdminOwner : Bool) (name : String) (r : MafReturn × TxState) :
    LockedBridge.unLockOnFailure env isAdminOwner name r =
      match r with
      | (.ok, w) => (.ok, w)
      | (ret, w) => (ret, unLockForCall env isAdminOwner name .one w) := by
  obtain ⟨ret, w⟩ := r
  cases ret <;> rfl

theorem unLockOnFailure_fst (isAdminOwner : Bool) (name : String) (r : MafReturn × TxState) :
    (LockedBridge.unLockOnFailure env isAdminOwner name r).1 = r.1 := by
  rw [LockedBridge.unLockOnFailure]
  split <;> rfl

theorem writeStructToImm_locked {dn attributeName : String} {refs : List String}
    (h : structReferences env.toStructEnv dn attributeName w.cache = some refs) (values : List StructValue) :
    LockedBridge.writeStructToImm env dn attributeName values w =
      untilFailure .ok (answeredLocked env) (structCalls env.toStructEnv dn attributeName values refs) w := by
  unfold structReferences at h
  unfold LockedBridge.writeStructToImm
  generalize getImmMoAttributeSimple env.toStructEnv (splitDn dn) attributeName .string w.cache = r at h ⊢
  obtain ⟨ret, ctp⟩ := r
  cases ret <;> cases ctp <;> cases h <;> rfl

theorem writeStructToImm_locked_none {dn attributeName : String}
    (h : structReferences env.toStructEnv dn attributeName w.cache = none) (values : List StructValue) :
    ∃ ret, ret ≠ .ok ∧ LockedBridge.writeStructToImm env dn attributeName values w = some (ret, w) ∧
      writeStructToImm env.toStructEnv dn attributeName values w.cache = some (ret, w.cache) := by
  have hvalue := @getImmMoAttributeSimple_ne env.toStructEnv (splitDn dn) attributeName .string w.cache
  unfold structReferences at h
  unfold LockedBridge.writeStructToImm writeStructToImm
  generalize getImmMoAttributeSimple env.toStructEnv (splitDn dn) attributeName .string w.cache = r at h hvalue ⊢
  obtain ⟨ret, ctp⟩ := r
  cases ret
  case ok =>
    cases ctp with
    | none => exact absurd rfl hvalue
    | some ctp => cases h
  case notExist => cases h
  all_goals
    refine ⟨_, ?_, rfl, rfl⟩
    nofun

theorem keeps_writeStruct (h : KeptClear env imm w) (hm : env.Models imm) {dn attributeName : String}
    {values : List StructValue}
    (hlegal : ∀ refs, structReferences env.toStructEnv dn attributeName w.cache = some refs →
      LegalCalls env.tr imm (SessionCall.answered env.tr) w.cache
        (structCalls env.toStructEnv dn attributeName values refs))
    (ht : env.lockMoForConfigChange = true → Taken env w (env.tr.mo2ImmDn (splitDn dn), .one)) :
    ∃ ret w', LockedBridge.writeStructToImm env dn attributeName values w = some (ret, w') ∧
      KeepsRecord env imm w (∃ refs, structReferences env.toStructEnv dn attributeName w.cache = some refs ∧
          ∀ call ∈ structCalls env.toStructEnv dn attributeName values refs, call.Valid env.tr)
        (writeStructToImm env.toStructEnv dn attributeName values w.cache) ret w' := by
  cases hrefs : structReferences env.toStructEnv dn attributeName w.cache with
  | none =>
    obtain ⟨ret, hret, hlocked, hwrite⟩ := writeStructToImm_locked_none hrefs values
    exact ⟨ret, w, hlocked, h, fun hok => absurd hok hret, fun _ => hwrite, nofun⟩
  | some refs =>
    rw [writeStructToImm_locked hrefs, writeStructToImm_of_references hrefs]
    obtain ⟨ret, w', hrun, hkeeps⟩ := keeps_untilFailure (fun w call h => keeps_answeredLocked h hm)
      (fun _ _ _ _ => quiet_answeredLocked) h (hlegal refs hrefs) (fun call hcall => inner_structCalls hcall) ht
    refine ⟨ret, w', hrun, hkeeps.kept, hkeeps.taken, hkeeps.cache, fun hgrants hvalid => ?_⟩
    obtain ⟨_, heq, hvalid⟩ := hvalid
    obtain rfl := Option.some.inj heq
    exact hkeeps.succeeds hgrants hvalid

/-- An attribute keeps the record where all that it asked for was granted, or nothing. -/
structure SetKeeps (env : TxEnv) (imm : ImmTree) (dn : String) (a : String × AttributeValue) (w : TxState)
    (ret : MafReturn) (w' : TxState) : Prop where
  kept : Granted env ret ∨ SetRefused env dn a.1 w → KeptClear env imm w'
  cache : Granted env ret → Bridge.setImmMoAttribute env.toBridgeEnv dn a.1 a.2 w.cache = some (ret, w'.cache)
  succeeds : Grants w → SetValid env.toBridgeEnv dn w.cache a → ret = .ok

theorem keeps_setImmMoAttribute (h : KeptClear env imm w) (hm : env.Models imm) {dn : String}
    {a : String × AttributeValue} (hlegal : SetLegal env.toBridgeEnv imm dn w.cache a) :
    ∃ ret w', LockedBridge.setImmMoAttribute env dn a.1 a.2 w = some (ret, w') ∧ SetKeeps env imm dn a w ret w' := by
  obtain ⟨name, v⟩ := a
  cases v with
  | simple v =>
    obtain ⟨ret, w', hrun, -, hkeeps⟩ := @keeps_runLocked env imm w (.set (.ofString dn) name v) h hm hlegal trivial
    exact ⟨ret, w', hrun, fun _ => hkeeps.kept, hkeeps.cache, hkeeps.succeeds⟩
  | struct values =>
    rw [LockedBridge.setImmMoAttribute]
    cases hvalid : env.tr.isDnListValid (splitDn dn) name with
    | false =>
      refine ⟨.failure, w, rfl, fun _ => h, fun _ => ?_, fun _ hvalid' => ?_⟩
      · rw [Bridge.setImmMoAttribute, hvalid]
        rfl
      · rw [SetValid, hvalid] at hvalid'
        cases hvalid'.1
    | true =>
      obtain ⟨hsome, hcalls⟩ := hlegal hvalid
      have hcov := ((h.kept.cacheInv.isSome_iff (splitDn_ne_nil dn)).mp hsome).1
      rw [← Cache.isDeleted_iff, Bool.not_eq_true] at hcov
      rcases @lockForCall_cases env w (env.tr.mo2ImmDn (splitDn dn)) .one h.clear with ⟨w₁, hlock, hl⟩ |
        ⟨ret, w₁, hlock, hl, hok, -, hflag, hno⟩
      · have ht := (@locked_lockForCall env w (env.tr.mo2ImmDn (splitDn dn)) .one h.clear).2
        rw [hlock] at ht
        have h₁ : KeptClear env imm w₁ := ⟨h.kept.locked hl, fun ha => h.clear (hl.answers ha)⟩
        rw [← hl.cache] at hcalls hcov
        obtain ⟨ret, w₂, hwrite, hkeeps⟩ := keeps_writeStruct h₁ hm hcalls fun hflag => ht hflag rfl
        have hbridge : Bridge.setImmMoAttribute env.toBridgeEnv dn name (.struct values) w.cache =
            writeStructToImm env.toStructEnv dn name values w₁.cache := by
          rw [Bridge.setImmMoAttribute, hvalid, ← hl.cache, hcov]
          rfl
        simp only [Bool.not_true, Bool.false_eq_true, if_false, hlock, hcov, hwrite, Option.map_some]
        have hnot : ¬ SetRefused env dn name w := by
          rintro (hinvalid | hrefused)
          · rw [hvalid] at hinvalid
            cases hinvalid
          · rw [hlock] at hrefused
            exact hrefused rfl
        have hfst := @unLockOnFailure_fst env (isAdminOwnerFor (env.tr.mo2ImmDn (splitDn dn)) .one w)
          (env.tr.mo2ImmDn (splitDn dn)) (ret, w₂)
        have hgiven := fun hgranted => @unLockOnFailure_of_granted env (ret, w₂) hgranted
          (isAdminOwnerFor (env.tr.mo2ImmDn (splitDn dn)) .one w) (env.tr.mo2ImmDn (splitDn dn))
        generalize LockedBridge.unLockOnFailure env (isAdminOwnerFor (env.tr.mo2ImmDn (splitDn dn)) .one w)
          (env.tr.mo2ImmDn (splitDn dn)) (ret, w₂) = r at hfst hgiven ⊢
        refine ⟨r.1, r.2, rfl, fun hor => ?_, fun hgranted => ?_, fun hgrants hvalid' => ?_⟩
        · have hgranted := hor.resolve_right hnot
          rw [hfst] at hgranted
          rw [hgiven hgranted]
          exact hkeeps.kept
        · rw [hfst] at hgranted
          rw [hgiven hgranted, hbridge]
          exact hkeeps.cache hgranted
        · rw [hfst]
          obtain ⟨-, hrefs⟩ := hvalid'
          rw [← hl.cache] at hrefs
          exact hkeeps.succeeds (fun a ha => hgrants a (hl.answers ha)) hrefs
      · simp only [Bool.not_true, Bool.false_eq_true, if_false, hlock]
        refine ⟨ret, w₁, ?_, fun _ => ⟨h.kept.locked hl, fun ha => h.clear (hl.answers ha)⟩, fun hgranted => ?_,
          fun hgrants _ => absurd hgrants hno⟩
        · cases ret <;> first | exact absurd rfl hok | rfl
        · rcases hgranted with hoff | hgranted
          · rw [hflag] at hoff
            cases hoff
          · exact absurd hgranted hok

theorem keeps_setInitialAttributes (hm : env.Models imm) {dn : String} {as : List (String × AttributeValue)}
    {ret : MafReturn} (h : KeptClear env imm w)
    (hlegal : Along (setGoOn env.toBridgeEnv dn) (fun s a => ∀ c, s = some c → SetLegal env.toBridgeEnv imm dn c a)
      (some w.cache) (as.filter fun a => a.1 ∈ env.tr.comAttributeList (splitDn dn)))
    (hgranted : env.lockMoForConfigChange = true → Grants w ∧ ret = .ok ∧
      Along (setGoOn env.toBridgeEnv dn) (fun s a => ∀ c, s = some c → SetValid env.toBridgeEnv dn c a)
        (some w.cache) (as.filter fun a => a.1 ∈ env.tr.comAttributeList (splitDn dn))) :
    ∃ ret' w', LockedBridge.setInitialAttributes env dn as ret w = some (ret', w') ∧ Granted env ret' ∧
      KeptClear env imm w' := by
  induction as generalizing ret w with
  | nil =>
    refine ⟨ret, w, rfl, ?_, h⟩
    cases hflag : env.lockMoForConfigChange with
    | false => exact Or.inl hflag
    | true => exact Or.inr (hgranted hflag).2.1
  | cons a as ih =>
    obtain ⟨name, v⟩ := a
    rw [LockedBridge.setInitialAttributes]
    by_cases hname : name ∈ env.tr.comAttributeList (splitDn dn)
    swap
    · have hname' : ¬ decide (name ∈ env.tr.comAttributeList (splitDn dn)) = true := by simpa using hname
      rw [List.filter_cons, if_neg hname'] at hlegal hgranted
      rw [if_neg hname]
      exact ih h hlegal hgranted
    rw [List.filter_cons, if_pos (decide_eq_true hname)] at hlegal hgranted
    obtain ⟨hfirst, hrest⟩ := hlegal
    obtain ⟨e, w₁, hset, hkeeps⟩ := keeps_setImmMoAttribute h hm (hfirst w.cache rfl)
    have hok : env.lockMoForConfigChange = true → e = .ok := fun hflag =>
      hkeeps.succeeds (hgranted hflag).1 ((hgranted hflag).2.2.1 w.cache rfl)
    have hgiven : Granted env e := by
      cases hflag : env.lockMoForConfigChange with
      | false => exact Or.inl hflag
      | true => exact Or.inr (hok hflag)
    have hnext : setGoOn env.toBridgeEnv dn (some w.cache) (name, v) = some w₁.cache := by
      rw [setGoOn, Option.bind_some, hkeeps.cache hgiven]
      rfl
    rw [hnext] at hrest
    rw [if_pos hname, hset, Option.bind_some]
    refine ih (hkeeps.kept (Or.inl hgiven)) hrest fun hflag => ?_
    obtain ⟨hgrants, hret, -, hvalid⟩ := hgranted hflag
    rw [hnext] at hvalid
    exact ⟨hgrants.quiet (quiet_setLocked hset), (if_pos (hok hflag)).trans hret, hvalid⟩

/-! ## Creating an object -/

/-- A call that does nothing: it is rejected, or IMM refuses the parent. -/
def CreateRefused (env : TxEnv) (m : CreateMoCall) (w : TxState) : Prop := (TxState.createImmMo env m.bare w).1 ≠ .ok

theorem accepted_of_createImmMo {tr : Translator} {m : CreateCall} {c : Cache}
    (hok : (ComSA.createImmMo tr m c).1 = .ok) :
    m.keyAttributeValue.toList.all isGraph = true ∧ tr.isDnListValid m.parent m.className = true := by
  rw [ComSA.createImmMo] at hok
  cases hgraph : m.keyAttributeValue.toList.all isGraph with
  | false =>
    rw [hgraph] at hok
    cases hok
  | true =>
    cases hvalid : tr.isDnListValid m.parent m.className with
    | false =>
      rw [hgraph, hvalid] at hok
      cases hok
    | true => exact ⟨rfl, rfl⟩

def CreateGranted (env : TxEnv) (m : CreateMoCall) (w : TxState) : Prop :=
  CreateRefused env m w ∨ Grants w ∧ CreateValid env.toBridgeEnv w.cache m

theorem keeps_createImmMo (h : KeptClear env imm w) (hm : env.Models imm) {m : CreateMoCall}
    (hlegal : CreateLegal env.toBridgeEnv imm w.cache m)
    (hgranted : env.lockMoForConfigChange = true → CreateGranted env m w) :
    ∃ ret w', LockedBridge.createImmMo env m w = some (ret, w') ∧ KeptClear env imm w' := by
  obtain ⟨⟨hbare, hrest⟩, hsets⟩ := hlegal
  have hlegal₀ := hbare w.cache rfl
  obtain ⟨ret₀, w₁, hcreate, -, hkeeps₀⟩ :=
    @keeps_runLocked env imm w (.create m.bare) h hm hlegal₀ rfl
  have hquiet₀ := quiet_runLocked hcreate
  have hcreate : TxState.createImmMo env m.bare w = (ret₀, w₁) := Option.some.inj hcreate
  rw [LockedBridge.createImmMo, hcreate]
  by_cases hok : ret₀ = .ok
  swap
  · refine ⟨ret₀, w₁, ?_, hkeeps₀.kept⟩
    cases ret₀ <;> first | exact absurd rfl hok | rfl
  subst hok
  have hnotRefused : ¬ CreateRefused env m w := fun hne => hne (congrArg Prod.fst hcreate)
  have hgranted := fun hflag => (hgranted hflag).resolve_left hnotRefused
  have hrun₀ := hkeeps₀.cache (Or.inr rfl)
  obtain ⟨hgraph, hvalid⟩ := accepted_of_createImmMo (congrArg Prod.fst (Option.some.inj hrun₀))
  rw [goOn_of_ok hrun₀] at hrest
  obtain ⟨ret₁, w₂, hstructs, hkeeps₁⟩ := @keeps_untilFailure env imm w₁ m.dn (runLocked env)
    (fun c call => SessionCall.run env.tr c call) (fun w call h hl hr => by
      obtain ⟨ret, w', hrun, -, hkeeps⟩ := keeps_runLocked h hm hl hr
      exact ⟨ret, w', hrun, hkeeps⟩) (fun _ _ _ _ => quiet_runLocked) _ hkeeps₀.kept hrest
    (fun call hcall => inner_firstInstanceCalls hcall)
    fun hflag => hkeeps₀.taken rfl _ (h.kept.taken_new hm (hlegal₀ hgraph hvalid) hflag)
  have hok₁ : env.lockMoForConfigChange = true → ret₁ = .ok := fun hflag =>
    hkeeps₁.succeeds ((hgranted hflag).1.quiet hquiet₀)
      fun call hcall => (hgranted hflag).2.1 call (List.mem_cons_of_mem _ hcall)
  have hgiven₁ : Granted env ret₁ := by
    cases hflag : env.lockMoForConfigChange with
    | false => exact Or.inl hflag
    | true => exact Or.inr (hok₁ hflag)
  dsimp only
  rw [hstructs, Option.bind_some]
  by_cases hok : ret₁ = .ok
  swap
  · rw [if_neg hok, Option.map_some, unLockOnFailure_of_granted hgiven₁]
    exact ⟨ret₁, w₂, rfl, hkeeps₁.kept⟩
  subst hok
  rw [if_pos rfl]
  -- The attributes are set from where the calls that record the object have ended.
  have hrecorded : recorded env.toBridgeEnv w.cache m = some w₂.cache := by
    rw [recorded, creationCalls, List.foldl_cons, goOn_of_ok hrun₀, foldl_goOn, hkeeps₁.cache hgiven₁,
      Option.bind_some, if_pos rfl]
  obtain ⟨ret₂, w₃, hset, hgiven₂, hkept⟩ := @keeps_setInitialAttributes env imm w₂ hm (joinDn m.dn)
    m.initialAttributes .ok hkeeps₁.kept (by rwa [m.splitDn_joinDn, ← hrecorded]) fun hflag => by
      obtain ⟨hgrants, -, hvalid⟩ := hgranted hflag
      refine ⟨(hgrants.quiet hquiet₀).quiet (quiet_untilFailure (fun _ _ _ _ => quiet_runLocked) hstructs), rfl, ?_⟩
      rwa [m.splitDn_joinDn, ← hrecorded]
  rw [hset, Option.map_some, unLockOnFailure_of_granted hgiven₂]
  exact ⟨ret₂, w₃, rfl, hkept⟩

/-! ## Calls without structs -/

theorem setInitialAttributes_locked_simple {dn : String} {as : List (String × AttributeValue)}
    {as' : List (String × MoAttributeValueContainer)} (h : as.mapM simpleAttribute = some as') (ret : MafReturn)
    (w : TxState) : LockedBridge.setInitialAttributes env dn as ret w =
      some (TxState.setInitialAttributes env (splitDn dn) as' ret w) := by
  induction as generalizing as' ret w with
  | nil =>
    obtain rfl : [] = as' := Option.some.inj h
    rfl
  | cons a as ih =>
    obtain ⟨name, v⟩ := a
    cases v with
    | struct values => simp [simpleAttribute] at h
    | simple v =>
      obtain ⟨rest, hrest, rfl⟩ : ∃ rest, as.mapM simpleAttribute = some rest ∧ (name, v) :: rest = as' := by
        simpa [simpleAttribute, Option.bind_eq_some_iff] using h
      rw [LockedBridge.setInitialAttributes, TxState.setInitialAttributes, LockedBridge.setImmMoAttribute]
      by_cases hname : name ∈ env.tr.comAttributeList (splitDn dn)
      · rw [if_pos hname, if_pos hname]
        generalize TxState.setImmMoAttribute env (splitDn dn) name v w = r
        obtain ⟨e, w₁⟩ := r
        cases e <;> exact ih hrest _ w₁
      · rw [if_neg hname, if_neg hname]
        exact ih hrest ret w

theorem createImmMo_locked_withoutStructs {m : CreateMoCall} {m' : CreateCall}
    (h : m.withoutStructs env.toBridgeEnv = some m') (w : TxState) :
    LockedBridge.createImmMo env m w = some (TxState.createImmMo env m' w) := by
  obtain ⟨hnone, has, hm'⟩ := withoutStructs_eq h
  rw [hm', LockedBridge.createImmMo, hnone, TxState.createImmMo, TxState.createImmMo]
  by_cases hgraph : (!m.keyAttributeValue.toList.all isGraph) = true
  · rw [if_pos hgraph, if_pos hgraph]
  rw [if_neg hgraph, if_neg hgraph]
  by_cases hvalid : (!env.tr.isDnListValid m.parent m.className) = true
  · rw [if_pos hvalid, if_pos hvalid]
  rw [if_neg hvalid, if_neg hvalid]
  dsimp only
  generalize lockForCall env (env.tr.mo2ImmDn m.parent) .one w = r
  obtain ⟨ret, w₁⟩ := r
  by_cases hok : ret = .ok
  swap
  · cases ret <;> first | exact absurd rfl hok | rfl
  subst hok
  have hset := @setInitialAttributes_locked_simple env (joinDn m.dn) _ _ has .ok
    { w₁ with cache := recordCreation env.tr m.bare w₁.cache }
  rw [m.splitDn_joinDn] at hset
  simp only [TxState.setInitialAttributes, firstInstanceCalls, List.flatMap_nil, untilFailure_nil, Option.bind_some,
    if_pos, hset, Option.map_some]
  exact congrArg some (unLockOnFailure_eq _ _ _)

end

end ComSA
