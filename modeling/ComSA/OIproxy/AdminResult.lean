import ComSA.OIproxy.AdminOperation

/-!
# The result of an admin operation

It is told here which callbacks send one result that is right: the ones before the action are looked at
first, then those after it.
-/

namespace ComSA.OIproxy.Admin

open Action (Parameter AdminOperationParams convertActionReturnToImmParameters)

/-! ## What it has to be -/

def resultOf : AdminCall → Option SaAisCode
  | .result code _ => some code
  | _ => none

def results (calls : List AdminCall) : List SaAisCode := calls.filterMap resultOf

def actionOf : AdminCall → Option (String × List Char)
  | .action dn name _ _ => some (dn, name)
  | _ => none

def actionsCalled (calls : List AdminCall) : List (String × List Char) := calls.filterMap actionOf

def hasOperationId (operationId : Nat) (ap : MoAction) : Bool :=
  match ap.domainExtension with
  | none => false
  | some dp => dp.domain = some DOMAIN_NAME_COREMW && dp.extensions.any fun ep =>
      ep.name = some DOMAIN_EXT_NAME_ADM_OP_ID && ep.value.any fun value => strtoull value 0 = (operationId, 0)

/-- The error number that calls before have left makes no difference to the action that is called. -/
structure Answered (env : AdminEnv) (request : AdminRequest) (s : OIProxy) (run : AdminRun) : Prop where
  one : (results run.calls).length = 1
  ok : .ok ∈ results run.calls →
    (∃ dn name parameters, .action dn name parameters .ok ∈ run.calls) ∧ .explicitPrepare .ok ∈ run.calls ∧
      .commit .ok ∈ run.calls ∧ ∀ ret, .convert ret ∈ run.calls → ret = .ok
  named : ∀ dn name, (dn, name) ∈ actionsCalled run.calls →
    ((env.GetComActionList dn).find? (hasOperationId request.operationId)).map (·.name) = some name
  same : ∀ fresh, OIProxy_handleAdminOperation env request 0 s = some fresh →
    actionsCalled run.calls = actionsCalled fresh.calls

def Resolved (env : AdminEnv) (request : AdminRequest) : Prop :=
  ∃ moDn index, env.parseImmDN request.immDn = some (moDn, index) ∧
    (index = -1 → findImplementer env moDn ≠ .null ∧ findImplementer env moDn ≠ .noClass)

def Opens (env : AdminEnv) : Prop :=
  env.getMoIf = true ∧ env.openTx.getInterface = .ok ∧ env.openTx.newTransaction = .ok ∧ env.openTx.joined = true

/-- With this error number the operation is that action of that object. -/
structure Selects (env : AdminEnv) (request : AdminRequest) (errno : Int) (moDn : String) (ap : MoAction) :
    Prop where
  parsed : env.parseImmDN request.immDn = some (moDn, -1)
  registered : ∃ moIfVersion, findImplementer env moDn = .found moIfVersion
  action : findAction request.operationId errno (env.GetComActionList moDn) = .found ap

structure Reaches (env : AdminEnv) (request : AdminRequest) (errno : Int) (moDn : String) (ap : MoAction) :
    Prop extends Selects env request errno moDn ap where
  placed : HavePlaces ap.parameters request.params
  modelled : ¬ Unmodelled ap.parameters request.params
  opens : Opens env

/-- The parameters have their places in the array that is made for them. -/
def Fits (env : AdminEnv) (request : AdminRequest) (errno : Int) : Prop :=
  ∀ moDn ap, Selects env request errno moDn ap → HavePlaces ap.parameters request.params

/-- After an action or a prepare that failed the messages have to be read, and an action that is prepared has
to have a name. -/
def Outcome (env : AdminEnv) (ap : MoAction) : Prop :=
  if env.action.1 = .ok then
    if env.explicitPrepare = .ok then ap.name ≠ []
    else ∃ errorStrings, GetErrMsgsFromThContext env.threadContext = .messages errorStrings
  else GetErrMsgsFromThContext env.threadContext ≠ .failed

/-! ## Looking up the action -/

theorem strtoull_erange (value : List Char) : (strtoull value ERANGE).2 = ERANGE := by
  unfold strtoull
  dsimp only
  split <;> rfl

theorem strtoull_errno (value : List Char) (errno : Int) :
    strtoull value errno = ((strtoull value 0).1, if (strtoull value 0).2 = ERANGE then ERANGE else errno) := by
  unfold strtoull
  dsimp only
  by_cases hbig : 2 ^ 64 ≤ (signedDecimal (value.dropWhile isSpace)).2
  · simp only [if_pos hbig, if_true]
  · simp only [if_neg hbig]
    rw [if_neg (show (0 : Int) ≠ ERANGE by decide)]

theorem matchExtension_clear {errno : Int} (h : errno ≠ ERANGE) (operationId : Nat) (ep : Extension) :
    matchExtension operationId errno ep = matchExtension operationId 0 ep := by
  unfold matchExtension
  split
  · cases ep.value with
    | none => rfl
    | some value =>
      dsimp only
      rw [strtoull_errno value errno]
      by_cases hrange : (strtoull value 0).2 = ERANGE
      · rw [if_pos hrange, hrange]
      · rw [if_neg hrange, if_pos (Or.inl h), if_pos (Or.inl hrange)]
  · rfl

theorem matchExtensions_clear {errno : Int} (h : errno ≠ ERANGE) (operationId : Nat) (extensions : List Extension) :
    matchExtensions operationId errno extensions = matchExtensions operationId 0 extensions := by
  induction extensions with
  | nil => rfl
  | cons ep extensions ih => rw [matchExtensions, matchExtensions, matchExtension_clear h, ih]

theorem findAction_clear {errno : Int} (h : errno ≠ ERANGE) (operationId : Nat) (actions : List MoAction) :
    findAction operationId errno actions = findAction operationId 0 actions := by
  induction actions with
  | nil => rfl
  | cons ap actions ih =>
    have hmatch : matchAction operationId errno ap = matchAction operationId 0 ap := by
      unfold matchAction
      cases ap.domainExtension with
      | none => rfl
      | some dp =>
        dsimp only
        rw [matchExtensions_clear h]
    rw [findAction, findAction, hmatch, ih]

theorem matchExtensions_erange (operationId : Nat) (extensions : List Extension) :
    matchExtensions operationId ERANGE extensions ≠ .found := by
  induction extensions with
  | nil => nofun
  | cons ep extensions ih =>
    rw [matchExtensions]
    have hmatch : matchExtension operationId ERANGE ep ≠ .found := by
      unfold matchExtension
      split
      · cases ep.value with
        | none => nofun
        | some value =>
          dsimp only
          rw [strtoull_erange, if_neg (by decide)]
          nofun
      · nofun
    cases hep : matchExtension operationId ERANGE ep with
    | found => exact absurd hep hmatch
    | erroneous => nofun
    | other => exact ih

theorem findAction_erange (operationId : Nat) (actions : List MoAction) (ap : MoAction) :
    findAction operationId ERANGE actions ≠ .found ap := by
  induction actions with
  | nil => nofun
  | cons first actions ih =>
    rw [findAction]
    cases hmatch : matchAction operationId ERANGE first with
    | found =>
      unfold matchAction at hmatch
      split at hmatch
      · cases hmatch
      · split at hmatch
        · exact absurd hmatch (matchExtensions_erange _ _)
        · cases hmatch
    | erroneous => nofun
    | other => exact ih

theorem matchExtension_found {operationId : Nat} {ep : Extension} :
    matchExtension operationId 0 ep = .found ↔
      (ep.name = some DOMAIN_EXT_NAME_ADM_OP_ID &&
        ep.value.any fun value => strtoull value 0 = (operationId, 0)) = true := by
  unfold matchExtension
  by_cases hname : ep.name = some DOMAIN_EXT_NAME_ADM_OP_ID
  · rw [if_pos hname]
    cases ep.value with
    | none => simp
    | some value =>
      have herrno : (strtoull value 0).2 = ERANGE ∨ (strtoull value 0).2 = 0 := by
        unfold strtoull
        dsimp only
        split
        · exact Or.inl rfl
        · exact Or.inr rfl
      rcases herrno with herrno | herrno
      · simp [herrno, Prod.ext_iff, ERANGE]
      · simp [herrno, hname, Prod.ext_iff, eq_comm, ERANGE]
  · simp [hname]

theorem matchExtensions_found {operationId : Nat} {extensions : List Extension}
    (h : matchExtensions operationId 0 extensions = .found) :
    ∃ ep ∈ extensions, matchExtension operationId 0 ep = .found := by
  induction extensions with
  | nil => cases h
  | cons ep extensions ih =>
    rw [matchExtensions] at h
    cases hep : matchExtension operationId 0 ep with
    | found => exact ⟨ep, List.mem_cons_self, hep⟩
    | erroneous => rw [hep] at h; cases h
    | other =>
      rw [hep] at h
      obtain ⟨other, hmem, hother⟩ := ih h
      exact ⟨other, List.mem_cons_of_mem _ hmem, hother⟩

theorem matchExtensions_other {operationId : Nat} {extensions : List Extension}
    (h : matchExtensions operationId 0 extensions = .other) :
    ∀ ep ∈ extensions, matchExtension operationId 0 ep = .other := by
  induction extensions with
  | nil => exact nofun
  | cons ep extensions ih =>
    rw [matchExtensions] at h
    cases hep : matchExtension operationId 0 ep with
    | found => rw [hep] at h; cases h
    | erroneous => rw [hep] at h; cases h
    | other =>
      rw [hep] at h
      exact List.forall_mem_cons.mpr ⟨hep, ih h⟩

theorem hasOperationId_of_found {operationId : Nat} {ap : MoAction} (h : matchAction operationId 0 ap = .found) :
    hasOperationId operationId ap = true := by
  unfold matchAction at h
  unfold hasOperationId
  cases hdp : ap.domainExtension with
  | none => rw [hdp] at h; cases h
  | some dp =>
    rw [hdp] at h
    dsimp only at h ⊢
    by_cases hdomain : dp.domain = some DOMAIN_NAME_COREMW
    · rw [if_pos hdomain] at h
      obtain ⟨ep, hmem, hfound⟩ := matchExtensions_found h
      rw [Bool.and_eq_true, List.any_eq_true]
      exact ⟨by simpa using hdomain, ep, hmem, matchExtension_found.mp hfound⟩
    · rw [if_neg hdomain] at h
      cases h

theorem not_hasOperationId_of_other {operationId : Nat} {ap : MoAction}
    (h : matchAction operationId 0 ap = .other) : hasOperationId operationId ap = false := by
  unfold matchAction at h
  unfold hasOperationId
  cases hdp : ap.domainExtension with
  | none => rfl
  | some dp =>
    rw [hdp] at h
    dsimp only at h ⊢
    by_cases hdomain : dp.domain = some DOMAIN_NAME_COREMW
    · rw [if_pos hdomain] at h
      rw [Bool.and_eq_false_iff, List.any_eq_false]
      refine Or.inr fun ep hmem hhas => ?_
      have hother := matchExtensions_other h ep hmem
      rw [matchExtension_found.mpr hhas] at hother
      cases hother
    · rw [Bool.and_eq_false_iff]
      exact Or.inl (by simpa using hdomain)

theorem find_of_findAction {operationId : Nat} {actions : List MoAction} {ap : MoAction}
    (h : findAction operationId 0 actions = .found ap) : actions.find? (hasOperationId operationId) = some ap := by
  induction actions with
  | nil => cases h
  | cons first actions ih =>
    rw [findAction] at h
    cases hmatch : matchAction operationId 0 first with
    | found =>
      rw [hmatch] at h
      obtain rfl := Lookup.found.inj h
      rw [List.find?_cons_of_pos (hasOperationId_of_found hmatch)]
    | erroneous => rw [hmatch] at h; cases h
    | other =>
      rw [hmatch] at h
      rw [List.find?_cons_of_neg (by rw [not_hasOperationId_of_other hmatch]; decide)]
      exact ih h

/-! ## The stages -/

theorem translateParameters_ok_iff (moIfVersion : RegisteredMoInterface) (parameters : List Parameter)
    (params : Option (List AdminOperationParams)) :
    (translateParameters moIfVersion parameters params).1 = .ok ↔ ¬ Unmodelled parameters params := by
  cases params with
  | none => exact iff_of_false nofun (not_not_intro trivial)
  | some received =>
    rcases translateImm2MoFrom_spec (moIfVersion = .managedObject2) parameters received with
      ⟨hok, -, hall⟩ | ⟨hbad, hnot⟩
    · refine iff_of_true hok ?_
      rintro ⟨p, hp, hname⟩
      exact hname (hall p hp)
    · exact iff_of_false hbad (not_not_intro hnot)

/-- How the first stage ends: without a result, with a failing one, or with an action. -/
inductive Found (env : AdminEnv) (request : AdminRequest) (errno : Int) :
    Except (List AdminCall) Target → Prop where
  | silent (calls : List AdminCall) (h : ¬ (Resolved env request ∧ Fits env request errno)) (hnone : results calls = [])
      (hcalls : actionsCalled calls = []) : Found env request errno (.error calls)
  | failed (text : String) (h : Resolved env request) (hfits : Fits env request errno)
      (hno : ∀ moDn ap, Selects env request errno moDn ap → Unmodelled ap.parameters request.params) :
      Found env request errno (.error [failedResult text])
  | target (target : Target) (h : Resolved env request) (hfits : Fits env request errno)
      (selects : Selects env request errno target.moDn target.ap)
      (modelled : ¬ Unmodelled target.ap.parameters request.params) : Found env request errno (.ok target)

theorem Selects.unique {env : AdminEnv} {request : AdminRequest} {errno : Int} {moDn moDn' : String}
    {ap ap' : MoAction} (h : Selects env request errno moDn ap) (h' : Selects env request errno moDn' ap') :
    moDn = moDn' ∧ ap = ap' := by
  obtain rfl : moDn = moDn' := (Prod.ext_iff.mp (Option.some.inj (h.parsed.symm.trans h'.parsed))).1
  exact ⟨rfl, Lookup.found.inj (h.action.symm.trans h'.action)⟩

theorem Found.failed_of_parsed {env : AdminEnv} {request : AdminRequest} {errno : Int} {moDn : String} {index : Int}
    (text : String) (hresolved : Resolved env request) (hparse : env.parseImmDN request.immDn = some (moDn, index))
    (hno : index = -1 → ∀ moIfVersion ap, findImplementer env moDn = .found moIfVersion →
      findAction request.operationId errno (env.GetComActionList moDn) ≠ .found ap) :
    Found env request errno (.error [failedResult text]) := by
  have hnone (moDn' : String) (ap : MoAction) : ¬ Selects env request errno moDn' ap := by
    rintro ⟨hsome, ⟨moIfVersion, hversion⟩, haction⟩
    rw [hparse] at hsome
    cases hsome
    exact hno rfl moIfVersion ap hversion haction
  exact .failed text hresolved (fun moDn' ap h => absurd h (hnone moDn' ap)) fun moDn' ap h => absurd h (hnone moDn' ap)

theorem findTarget_spec (env : AdminEnv) (request : AdminRequest) (errno : Int) :
    Found env request errno (findTarget env request errno) := by
  unfold findTarget
  cases hparse : env.parseImmDN request.immDn with
  | none =>
    refine .silent [] ?_ rfl rfl
    rintro ⟨⟨moDn, index, hsome, -⟩, -⟩
    rw [hparse] at hsome
    cases hsome
  | some parsed =>
    obtain ⟨moDn, index⟩ := parsed
    dsimp only
    by_cases hindex : index = -1
    · subst hindex
      rw [if_pos rfl]
      have hunresolved : (findImplementer env moDn = .null ∨ findImplementer env moDn = .noClass) →
          ¬ (Resolved env request ∧ Fits env request errno) := by
        rintro hnot ⟨⟨moDn', index, hsome, hfound⟩, -⟩
        rw [hparse] at hsome
        cases hsome
        exact hnot.elim (hfound rfl).1 (hfound rfl).2
      have hresolved : findImplementer env moDn ≠ .null → findImplementer env moDn ≠ .noClass →
          Resolved env request := fun hnull hclass => ⟨moDn, -1, hparse, fun _ => ⟨hnull, hclass⟩⟩
      cases hfound : findImplementer env moDn with
      | noClass => exact .silent [.undefined] (hunresolved (Or.inr hfound)) rfl rfl
      | null => exact .silent [] (hunresolved (Or.inl hfound)) rfl rfl
      | unregistered =>
        refine .failed_of_parsed _ (hresolved (by rw [hfound]; nofun) (by rw [hfound]; nofun)) hparse ?_
        intro _ moIfVersion ap hversion
        rw [hfound] at hversion
        cases hversion
      | found moIfVersion =>
        have hresolved := hresolved (by rw [hfound]; nofun) (by rw [hfound]; nofun)
        dsimp only
        by_cases hlist : env.GetComActionList moDn = []
        · rw [if_pos hlist]
          refine .failed_of_parsed _ hresolved hparse fun _ _ ap _ haction => ?_
          rw [hlist] at haction
          cases haction
        · rw [if_neg hlist]
          cases hlookup : findAction request.operationId errno (env.GetComActionList moDn) with
          | erroneous | notFound =>
            refine .failed_of_parsed _ hresolved hparse fun _ _ ap _ haction => ?_
            rw [hlookup] at haction
            cases haction
          | found ap =>
            dsimp only
            have hselects : Selects env request errno moDn ap := ⟨hparse, ⟨moIfVersion, hfound⟩, hlookup⟩
            have hinside := writtenInside_iff moIfVersion ap.parameters request.params
            by_cases hplaces : HavePlaces ap.parameters request.params
            · rw [if_neg (not_not_intro (hinside.mpr hplaces))]
              have hfits : Fits env request errno := fun moDn' ap' h => (hselects.unique h).2 ▸ hplaces
              by_cases htranslated : (translateParameters moIfVersion ap.parameters request.params).1 = .ok
              · rw [if_pos htranslated]
                exact .target _ hresolved hfits hselects ((translateParameters_ok_iff moIfVersion _ _).mp htranslated)
              · rw [if_neg htranslated]
                refine .failed _ hresolved hfits fun moDn' ap' h => (hselects.unique h).2 ▸ ?_
                exact not_not.mp fun hnot => htranslated ((translateParameters_ok_iff moIfVersion _ _).mpr hnot)
            · rw [if_pos (hinside.not.mpr hplaces)]
              exact .silent [.undefined] (fun hfits => hplaces (hfits.2 _ _ hselects)) rfl rfl
    · rw [if_neg hindex]
      exact .failed_of_parsed _ ⟨moDn, index, hparse, fun h => absurd h hindex⟩ hparse fun h => absurd h hindex

theorem mapComCodeToImmCode_eq_ok {ret : MafCode} (h : mapComCodeToImmCode ret = .ok) : ret = .ok := by
  cases ret with
  | code ret => cases ret <;> first | rfl | cases h
  | tryAgain => cases h
  | notActive => cases h
  | aborted => cases h
  | prepareFailed => cases h
  | timeOut => cases h

theorem answerAction_spec (env : AdminEnv) (target : Target) (moAction : MoAction) :
    ∃ code, results (answerAction env target moAction) = [code] ∧
      actionsCalled (answerAction env target moAction) = [] ∧
      (code = .ok → env.commit = .ok ∧ ∀ ret, .convert ret ∈ answerAction env target moAction → ret = .ok) := by
  unfold answerAction
  split
  · exact ⟨.failedOperation, rfl, rfl, nofun⟩
  · split
    · rename_i hcommit
      cases env.action.2 with
      | none => exact ⟨.ok, rfl, rfl, fun _ => ⟨hcommit, by simp⟩⟩
      | some container =>
        dsimp only
        generalize convertActionReturnToImmParameters env.translate moAction.returnType
          (target.moIfVersion = .managedObject2) [container] = converted
        have hrest : ∀ calls : List AdminCall,
            results (calls ++ if converted.2 = none then [.undefined] else []) = results calls ∧
            actionsCalled (calls ++ if converted.2 = none then [.undefined] else []) = actionsCalled calls := by
          intro calls
          split <;> simp [results, actionsCalled, resultOf, actionOf]
        rw [(hrest _).1, (hrest _).2]
        by_cases hok : converted.1 = .ok
        · rw [if_pos hok]
          refine ⟨.ok, rfl, rfl, fun _ => ⟨hcommit, fun ret hret => ?_⟩⟩
          have hret : AdminCall.convert ret = .convert converted.1 := by
            revert hret
            split <;> simp
          rw [AdminCall.convert.inj hret, hok]
        · rw [if_neg hok]
          refine ⟨mapComCodeToImmCode (.code converted.1), rfl, rfl, fun hcode => ?_⟩
          exact absurd (MafCode.code.inj (mapComCodeToImmCode_eq_ok hcode)) hok
    · exact ⟨.failedOperation, rfl, rfl, nofun⟩

structure ActionRun (env : AdminEnv) (target : Target) (calls : List AdminCall) : Prop where
  called : actionsCalled calls = [(target.moDn, target.ap.name)]
  one : (results calls).length = 1 ↔ Outcome env target.ap
  ok : .ok ∈ results calls →
    (∃ dn name parameters, .action dn name parameters .ok ∈ calls) ∧ .explicitPrepare .ok ∈ calls ∧
      .commit .ok ∈ calls ∧ ∀ ret, .convert ret ∈ calls → ret = .ok

theorem GetComAction_eq_none {actions : List MoAction} {ap : MoAction} (h : ap ∈ actions) :
    GetComAction actions ap.name = none ↔ ap.name = [] := by
  unfold GetComAction
  split <;> rename_i hname
  · rw [List.find?_eq_none]
    refine iff_of_false (fun hall => ?_) hname
    exact hall ap h (by simp)
  · exact iff_of_true rfl (not_not.mp hname)

theorem ActionRun.of_not_ok {env : AdminEnv} {target : Target} {calls : List AdminCall}
    (called : actionsCalled calls = [(target.moDn, target.ap.name)])
    (one : (results calls).length = 1 ↔ Outcome env target.ap) (h : .ok ∉ results calls) :
    ActionRun env target calls :=
  ⟨called, one, fun hok => absurd hok h⟩

theorem not_mem_of_failed {ret : MafCode} (h : ret ≠ .ok) : SaAisCode.ok ∉ [mapComCodeToImmCode ret] :=
  fun hok => h (mapComCodeToImmCode_eq_ok (List.mem_singleton.mp hok).symm)

theorem runTransaction_prepared (env : AdminEnv) (target : Target) (tx : TxHandle) (s : OIProxy)
    (h : target.ap ∈ env.GetComActionList target.moDn) (haction : env.action.1 = .ok)
    (hprepare : env.explicitPrepare = .ok) : ActionRun env target (runTransaction env target tx s).calls := by
  unfold runTransaction
  simp only [if_pos haction, if_pos hprepare]
  cases hget : GetComAction (env.GetComActionList target.moDn) target.ap.name with
  | none =>
    refine .of_not_ok rfl ?_ nofun
    rw [Outcome, if_pos haction, if_pos hprepare]
    exact iff_of_false nofun (not_not_intro ((GetComAction_eq_none h).mp hget))
  | some moAction =>
    obtain ⟨code, hresults, hcalled, hcode⟩ := answerAction_spec env target moAction
    have hall : results ([AdminCall.action target.moDn target.ap.name target.parameters env.action.1,
        .explicitPrepare env.explicitPrepare, .commit env.commit] ++ answerAction env target moAction) = [code] := by
      rw [results, List.filterMap_append]
      exact congrArg ([] ++ ·) hresults
    refine ⟨?_, ?_, fun hok => ?_⟩
    · rw [actionsCalled, List.filterMap_append]
      exact congrArg ([(target.moDn, target.ap.name)] ++ ·) hcalled
    · rw [Outcome, if_pos haction, if_pos hprepare, hall]
      refine iff_of_true rfl fun hname => ?_
      rw [(GetComAction_eq_none h).mpr hname] at hget
      cases hget
    · rw [hall] at hok
      obtain ⟨hcommit, hconvert⟩ := hcode (List.mem_singleton.mp hok).symm
      refine ⟨⟨target.moDn, target.ap.name, target.parameters, ?_⟩, ?_, ?_, fun ret hret => ?_⟩
      · rw [haction]
        exact List.mem_append_left _ List.mem_cons_self
      · rw [hprepare]
        simp
      · rw [hcommit]
        simp
      · rcases List.mem_append.mp hret with hret | hret
        · simp at hret
        · exact hconvert ret hret

theorem runTransaction_refused (env : AdminEnv) (target : Target) (tx : TxHandle) (s : OIProxy)
    (haction : env.action.1 = .ok) (hprepare : env.explicitPrepare ≠ .ok) :
    ActionRun env target (runTransaction env target tx s).calls := by
  unfold runTransaction
  simp only [if_pos haction, if_neg hprepare]
  cases hmessages : GetErrMsgsFromThContext env.threadContext with
  | failed | untouched =>
    refine .of_not_ok rfl ?_ nofun
    rw [Outcome, if_pos haction, if_neg hprepare, hmessages]
    exact iff_of_false nofun nofun
  | messages errorStrings =>
    refine .of_not_ok rfl ?_ (not_mem_of_failed hprepare)
    rw [Outcome, if_pos haction, if_neg hprepare, hmessages]
    exact iff_of_true rfl ⟨errorStrings, rfl⟩

theorem runTransaction_failed (env : AdminEnv) (target : Target) (tx : TxHandle) (s : OIProxy)
    (haction : env.action.1 ≠ .ok) : ActionRun env target (runTransaction env target tx s).calls := by
  unfold runTransaction
  simp only [if_neg haction]
  cases hmessages : GetErrMsgsFromThContext env.threadContext with
  | failed =>
    refine .of_not_ok rfl ?_ nofun
    rw [Outcome, if_neg haction, hmessages]
    exact iff_of_false nofun (not_not_intro rfl)
  | untouched =>
    have hclear : results (clearMessages env.threadContext) = [] ∧
        actionsCalled (clearMessages env.threadContext) = [] := by
      unfold clearMessages
      split <;> exact ⟨rfl, rfl⟩
    have hall : results ([AdminCall.action target.moDn target.ap.name target.parameters env.action.1,
        .result (mapComCodeToImmCode env.action.1) .unwritten, .abort] ++ clearMessages env.threadContext) =
        [mapComCodeToImmCode env.action.1] := by
      rw [results, List.filterMap_append]
      exact congrArg ([mapComCodeToImmCode env.action.1] ++ ·) hclear.1
    refine .of_not_ok ?_ ?_ ?_
    · rw [actionsCalled, List.filterMap_append]
      exact congrArg ([(target.moDn, target.ap.name)] ++ ·) hclear.2
    · rw [Outcome, if_neg haction, hmessages, hall]
      exact iff_of_true rfl nofun
    · rw [hall]
      exact not_mem_of_failed haction
  | messages errorStrings =>
    refine .of_not_ok rfl ?_ (not_mem_of_failed haction)
    rw [Outcome, if_neg haction, hmessages]
    exact iff_of_true rfl nofun

theorem runTransaction_spec (env : AdminEnv) (target : Target) (tx : TxHandle) (s : OIProxy)
    (h : target.ap ∈ env.GetComActionList target.moDn) :
    ActionRun env target (runTransaction env target tx s).calls := by
  by_cases haction : env.action.1 = .ok
  · by_cases hprepare : env.explicitPrepare = .ok
    · exact runTransaction_prepared env target tx s h haction hprepare
    · exact runTransaction_refused env target tx s haction hprepare
  · exact runTransaction_failed env target tx s haction

theorem runAction_spec {s : OIProxy} (h : s.Ok) (env : AdminEnv) (target : Target) :
    (¬ Opens env ∧ ∃ text s', runAction env target s = some ⟨[failedResult text], s'⟩) ∨
      (Opens env ∧ ∃ tx s', runAction env target s = some (runTransaction env target tx s')) := by
  obtain ⟨c, hfree, hnone⟩ := freeCcbId_of_ok h
  unfold runAction Opens
  rw [hfree]
  dsimp only
  cases hmoIf : env.getMoIf with
  | false => exact Or.inl ⟨fun hopens => (nomatch hopens.1), _, _, rfl⟩
  | true =>
    rw [if_neg (by decide)]
    unfold openTransaction
    rw [hnone]
    by_cases hportal : env.openTx.getInterface = .ok
    · rw [if_neg (not_not_intro hportal)]
      dsimp only
      by_cases hnew : env.openTx.newTransaction = .ok
      · rw [if_neg (not_not_intro hnew)]
        cases hjoined : env.openTx.joined with
        | false => exact Or.inl ⟨fun hopens => (nomatch hopens.2.2.2), _, _, rfl⟩
        | true => exact Or.inr ⟨⟨rfl, hportal, hnew, rfl⟩, _, _, rfl⟩
      · rw [if_pos hnew]
        exact Or.inl ⟨fun hopens => hnew hopens.2.2.1, _, _, rfl⟩
    · rw [if_pos hportal]
      exact Or.inl ⟨fun hopens => hportal hopens.2.1, _, _, rfl⟩

/-! ## One result -/

theorem mem_of_findAction {operationId : Nat} {errno : Int} {actions : List MoAction} {ap : MoAction}
    (h : findAction operationId errno actions = .found ap) : ap ∈ actions := by
  induction actions with
  | nil => cases h
  | cons first actions ih =>
    rw [findAction] at h
    cases hmatch : matchAction operationId errno first with
    | found =>
      rw [hmatch] at h
      exact Lookup.found.inj h ▸ List.mem_cons_self
    | erroneous => rw [hmatch] at h; cases h
    | other =>
      rw [hmatch] at h
      exact List.mem_cons_of_mem _ (ih h)

inductive Ended (env : AdminEnv) (request : AdminRequest) (errno : Int) : Option AdminRun → Prop where
  | silent (calls : List AdminCall) (s : OIProxy) (h : ¬ (Resolved env request ∧ Fits env request errno))
      (hnone : results calls = []) (hcalls : actionsCalled calls = []) : Ended env request errno (some ⟨calls, s⟩)
  | failed (text : String) (s : OIProxy) (h : Resolved env request) (hfits : Fits env request errno)
      (hno : ∀ moDn ap, ¬ Reaches env request errno moDn ap) :
      Ended env request errno (some ⟨[failedResult text], s⟩)
  | ran (target : Target) (run : AdminRun) (h : Resolved env request) (hfits : Fits env request errno)
      (hreaches : Reaches env request errno target.moDn target.ap) (hrun : ActionRun env target run.calls) :
      Ended env request errno (some run)

theorem handleAdminOperation_spec {s : OIProxy} (h : s.Ok) (env : AdminEnv) (request : AdminRequest) (errno : Int) :
    Ended env request errno (OIProxy_handleAdminOperation env request errno s) := by
  unfold OIProxy_handleAdminOperation
  have hfound := findTarget_spec env request errno
  generalize findTarget env request errno = found at hfound ⊢
  cases hfound with
  | silent calls hnot hnone hcalls => exact .silent calls s hnot hnone hcalls
  | failed text hresolved hfits hno =>
    refine .failed text s hresolved hfits fun moDn ap hreaches => ?_
    exact hreaches.modelled (hno moDn ap hreaches.toSelects)
  | target target hresolved hfits hselects hmodelled =>
    dsimp only
    rcases runAction_spec h env target with ⟨hclosed, text, s', hrun⟩ | ⟨hopens, tx, s', hrun⟩
    · rw [hrun]
      exact .failed text s' hresolved hfits fun moDn ap hreaches => hclosed hreaches.opens
    · rw [hrun]
      exact .ran target _ hresolved hfits ⟨hselects, hfits _ _ hselects, hmodelled, hopens⟩
        (runTransaction_spec env target tx s' (mem_of_findAction hselects.action))

theorem handleAdminOperation_clear {errno : Int} (h : errno ≠ ERANGE) (env : AdminEnv) (request : AdminRequest)
    (s : OIProxy) :
    OIProxy_handleAdminOperation env request errno s = OIProxy_handleAdminOperation env request 0 s := by
  unfold OIProxy_handleAdminOperation findTarget
  simp only [findAction_clear h]

theorem Reaches.clear {env : AdminEnv} {request : AdminRequest} {errno : Int} {moDn : String} {ap : MoAction}
    (h : Reaches env request 0 moDn ap) (herrno : errno ≠ ERANGE) : Reaches env request errno moDn ap :=
  { h with action := (findAction_clear herrno _ _).trans h.action }

/-- An object `A=1` with one action, whose id is 7, which takes two numbers and answers the number 5. -/
def countingEnv : AdminEnv where
  oi := ⟨none, fun _ => false, fun _ => "", fun _ => none, id, 255⟩
  parseImmDN immDn := if immDn = "aId=1" then some ("A=1", -1) else none
  existRegisteredDN _ := true
  existRegisteredClass _ := false
  getRegisteredDN _ := some .managedObject3
  getRegisteredClass _ := none
  GetComActionList _ := [⟨"count".toList, ⟨⟨.int32, .void, 1, 1⟩, none, []⟩,
    [⟨"from".toList, ⟨⟨.int32, .void, 1, 1⟩, none, []⟩⟩, ⟨"to".toList, ⟨⟨.int32, .void, 1, 1⟩, none, []⟩⟩],
    some ⟨some DOMAIN_NAME_COREMW, [⟨some DOMAIN_EXT_NAME_ADM_OP_ID, some "7".toList⟩]⟩⟩]
  getMoIf := true
  openTx := ⟨.ok, .ok, .ok, false, .ok⟩
  action := (.ok, some ⟨.int32, [⟨.number 5, ⟨.void, []⟩, []⟩]⟩)
  explicitPrepare := .ok
  commit := .ok
  translate := ⟨id, id, id, false⟩
  threadContext := ⟨true, true, .ok, fun _ => .ok, fun _ => some []⟩

def countRequest : AdminRequest :=
  ⟨"aId=1", 7, some [⟨"to".toList, .saInt32, .number 9⟩, ⟨"from".toList, .saInt32, .number 2⟩]⟩

def adminAnswers (env : AdminEnv) (request : AdminRequest) (errno : Int) : AdminAnswers where
  early := match findTarget env request errno with
    | .error _ => true
    | .ok _ => false
  moIf := env.getMoIf
  openTx := env.openTx
  action := env.action.1.toReturn
  explicitPrepare := env.explicitPrepare.toReturn
  getErrMsgs := match GetErrMsgsFromThContext env.threadContext with
    | .failed => .failure
    | .untouched => if env.action.1 = .ok then .failure else .ok
    | .messages _ => .ok

theorem toReturn_eq_ok_iff (ret : MafCode) : ret.toReturn = .ok ↔ ret = .ok := by
  cases ret <;> simp [MafCode.toReturn, MafCode.ok]

theorem runTransaction_proxy (env : AdminEnv) (target : Target) (tx : TxHandle) (s : OIProxy)
    (getErrMsgs : MafReturn)
    (h : getErrMsgs = match GetErrMsgsFromThContext env.threadContext with
      | .failed => .failure
      | .untouched => if env.action.1 = .ok then .failure else .ok
      | .messages _ => .ok) :
    some (runTransaction env target tx s).proxy =
      if env.action.1.toReturn = .ok then
        if env.explicitPrepare.toReturn = .ok then
          some ((s.call .adminOperation tx (.explicitPrepare env.explicitPrepare.toReturn)).call
            .adminOperation tx .commit)
        else if getErrMsgs ≠ .ok then
          some (s.call .adminOperation tx (.explicitPrepare env.explicitPrepare.toReturn))
        else
          some ((s.call .adminOperation tx (.explicitPrepare env.explicitPrepare.toReturn)).call
            .adminOperation tx .abort)
      else if getErrMsgs ≠ .ok then some s
      else some (s.call .adminOperation tx .abort) := by
  subst h
  unfold runTransaction
  simp only [toReturn_eq_ok_iff]
  by_cases haction : env.action.1 = .ok
  · simp only [if_pos haction]
    by_cases hprepare : env.explicitPrepare = .ok
    · simp only [if_pos hprepare]
      cases GetComAction (env.GetComActionList target.moDn) target.ap.name <;> rfl
    · simp only [if_neg hprepare]
      cases GetErrMsgsFromThContext env.threadContext <;> rfl
  · simp only [if_neg haction]
    cases GetErrMsgsFromThContext env.threadContext <;> rfl

theorem handleAdminOperation_proxy (env : AdminEnv) (request : AdminRequest) (errno : Int) (s : OIProxy) :
    (OIProxy_handleAdminOperation env request errno s).map (·.proxy) =
      handleAdminOperation (adminAnswers env request errno) s := by
  unfold OIProxy_handleAdminOperation handleAdminOperation
  cases htarget : findTarget env request errno with
  | error calls => simp [adminAnswers, htarget]
  | ok target =>
    have hearly : (adminAnswers env request errno).early = false := by simp [adminAnswers, htarget]
    rw [hearly, if_neg (by decide)]
    unfold runAction
    cases freeCcbId s (s.started + 1) 47 with
    | none => rfl
    | some ccbId =>
      have hmoIf : (adminAnswers env request errno).moIf = env.getMoIf := rfl
      have hopen : (adminAnswers env request errno).openTx = env.openTx := rfl
      dsimp only
      rw [hmoIf, hopen]
      cases env.getMoIf with
      | false => rfl
      | true =>
        rw [if_neg (by decide), if_neg (by decide)]
        obtain ⟨opened, s'⟩ := openTransaction .adminOperation ccbId env.openTx s
        cases opened with
        | none => rfl
        | some tx => exact runTransaction_proxy env target tx (s'.removeCcbTransaction ccbId) _ rfl

end ComSA.OIproxy.Admin
