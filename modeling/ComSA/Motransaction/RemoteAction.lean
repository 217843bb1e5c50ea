import ComSA.Motransaction.RemoteParameters

/-!
# An action through IMM

The bridge and the implementer of an object are at two ends of IMM. It is told here when an action that is
called at one end is carried out at the other and its answer comes back.
-/

namespace ComSA.Action

open OIproxy.Admin (MoAction MafCode SaAisCode RegisteredMoInterface NamedAttributeValueContainer ReturnParams
  AdminEnv AdminCall AdminRun AdminRequest Target Lookup ERANGE Opens OIProxy_handleAdminOperation
  translateParameters findImplementer findAction findAction_clear findAction_erange mem_of_findAction findTarget
  runAction_spec runTransaction runTransaction_spec actionsCalled answerAction failedResult GetComAction
  mapComCodeToImmCode_eq_ok GetErrMsgsFromThContext WrittenInside)

/-! ## The answer -/

/-- An answer as the model says: values of its type, or structs with all members. -/
structure AnswerConforms (isMoSpiVersion2 : Bool) (returnType : ParameterType) (c : AttributeValueContainer) :
    Prop where
  ne_nil : c.values ≠ []
  struct : returnType.type = .struct → c.type = .struct ∧ returnType.structName ≠ none ∧
    ∀ value ∈ c.values, StructConforms isMoSpiVersion2 returnType.members value
  simple : returnType.type ≠ .struct → c.type = attrType isMoSpiVersion2 returnType.toDatatypeContainer ∧
    ∀ x ∈ c.values, OfType c.type x.simple

def SameAnswer (returnType : ParameterType) (c : AttributeValueContainer) : ActionValue → Prop
  | .simple r => returnType.type ≠ .struct ∧ r = ⟨c.type, c.values.map ComValue.simple⟩
  | .structs structs => returnType.type = .struct ∧ SameArray returnType.members c.values structs
  | .nothing | .unfinished => False

/-- The values are as many as the model says and each comes back, and structs can be told apart. -/
def AnswerComesBack (env : TranslateEnv) (returnType : ParameterType) (c : AttributeValueContainer) : Prop :=
  if returnType.type = .struct then ∀ struct ∈ returnType.structName, Encodable env returnType struct c.values
  else (returnType.multiplicityMin ≤ c.values.length ∧ (c.values.length : Int) ≤ returnType.multiplicityMax) ∧
    ∀ x ∈ c.values, ComesBack env c.type x.simple

section
variable {env : TranslateEnv} {isMoSpiVersion2 : Bool} {returnType : ParameterType} {c : AttributeValueContainer}

namespace AnswerConforms

theorem conforms (h : AnswerConforms isMoSpiVersion2 returnType c) (hsimple : returnType.type ≠ .struct) :
    Conforms isMoSpiVersion2 ⟨[], returnType.toDatatypeContainer⟩ ⟨c.type, c.values.map ComValue.simple⟩ where
  type := (h.simple hsimple).1
  ne_nil := by simpa using h.ne_nil
  values := List.forall_mem_map.mpr (h.simple hsimple).2

theorem ne_void (h : AnswerConforms isMoSpiVersion2 returnType c) : returnType.type ≠ .void := by
  intro hvoid
  have hsimple : returnType.type ≠ .struct := by
    rw [hvoid]
    decide
  have hcase := (h.conforms hsimple).attrType_hasCase
  rw [attrType, hvoid, if_neg (by simp)] at hcase
  cases hcase

theorem sane (h : AnswerConforms isMoSpiVersion2 returnType c) (hsimple : returnType.type ≠ .struct) :
    sanityCheckReturnComParameters returnType c.type isMoSpiVersion2 = true := by
  have hcase := (h.conforms hsimple).hasCase
  have htype := (h.simple hsimple).1
  dsimp only at hcase
  unfold sanityCheckReturnComParameters
  unfold attrType at htype
  by_cases hderived : returnType.type = .derived ∧ isMoSpiVersion2 = false
  · rw [if_pos hderived] at htype ⊢
    exact decide_eq_true htype.symm
  · rw [if_neg hderived] at htype ⊢
    rw [if_neg ?_]
    · exact decide_eq_true htype.symm
    · rintro ⟨hvoid, -⟩
      rw [hvoid] at hcase
      cases hcase

theorem convert_simple (h : AnswerConforms isMoSpiVersion2 returnType c) (hsimple : returnType.type ≠ .struct) :
    convertActionReturnToImmParameters env returnType isMoSpiVersion2 [c] =
      (.ok, some (convertValues env [] isMoSpiVersion2 returnType.toDatatypeContainer
        (c.values.map ComValue.simple))) := by
  unfold convertActionReturnToImmParameters convertReturn
  rw [if_pos (h.sane hsimple), if_neg fun hand => h.ne_void hand.2.1, if_neg fun hand => hsimple hand.2.1,
    convertReturn, returnName, if_neg hsimple, convertContainer, if_neg hsimple]
  rfl

end AnswerConforms

theorem numbers_convertValues {type : DatatypeContainer} {values : List MoValue}
    (hcase : HasCase (attrType isMoSpiVersion2 type) = true) (hmulti : 1 < values.length) :
    (convertValues env [] isMoSpiVersion2 type values).map numberOf = numbers values.length := by
  have hnames : List.Forall₂ (fun x p => some (toString (x.2 + 1)).toList = numberOf p) values.zipIdx
      (convertValues env [] isMoSpiVersion2 type values) := by
    refine (forall₂_filterMap fun x _ => (convertASingleAdmOpParam_ne_none_iff _ _ x.1).mpr hcase).imp fun x p hp => ?_
    rw [numberOf, paramName_of_convert hp, elementName_of_lt hmulti, split_append List.not_mem_nil]
    rfl
  have heq := List.forall₂_map_left_iff.mpr (List.forall₂_map_right_iff.mpr hnames)
  rw [List.forall₂_eq_eq_eq] at heq
  rw [← heq, numbers, List.range_eq_range', ← List.zipIdx_map_snd 0 values, List.map_map]
  rfl

theorem convertSimple_values {type : DatatypeContainer} {v : MemberValue}
    (h : Conforms isMoSpiVersion2 ⟨[], type⟩ v) :
    (convertSimpleToMoAttribute env (some type) (convertValues env [] isMoSpiVersion2 type v.values)).2 =
        some ⟨v.type, v.values⟩ ↔
      (type.multiplicityMin ≤ v.values.length ∧ (v.values.length : Int) ≤ type.multiplicityMax) ∧
        ∀ value ∈ v.values, ComesBack env v.type value := by
  have hparams : List.Forall₂ (fun x p => convertASingleAdmOpParam env (elementName [] v.values.length x.2)
      isMoSpiVersion2 type x.1 = some p) v.values.zipIdx (convertValues env [] isMoSpiVersion2 type v.values) :=
    forall₂_filterMap fun x _ => (convertASingleAdmOpParam_ne_none_iff _ _ x.1).mpr h.attrType_hasCase
  have hlen : (convertValues env [] isMoSpiVersion2 type v.values).length = v.values.length := by
    rw [← hparams.length_eq, List.length_zipIdx]
  have hne : convertValues env [] isMoSpiVersion2 type v.values ≠ [] := by
    rw [← List.length_pos_iff, hlen]
    exact List.length_pos_iff.mpr h.ne_nil
  have hbase : baseType type = v.type := h.baseType_eq
  have hcase : HasCase (baseType type) = true := hbase ▸ h.hasCase
  have hvalues : (convertValues env [] isMoSpiVersion2 type v.values).mapM (convertValue env (baseType type)) =
      some v.values ↔ ∀ value ∈ v.values, ComesBack env v.type value := by
    have hplain : List.Forall₂ (fun value p => ∃ name, convertASingleAdmOpParam env name isMoSpiVersion2 type value =
        some p) v.values (convertValues env [] isMoSpiVersion2 type v.values) := by
      conv => arg 2; rw [← List.zipIdx_map_fst 0 v.values]
      exact List.forall₂_map_left_iff.mpr (hparams.imp fun x p hp => ⟨_, hp⟩)
    rw [mapM_eq_some_iff]
    refine forall₂_iff_of_forall₂ hplain fun value hvalue p hp => ?_
    obtain ⟨name, hp⟩ := hp
    have htyped := h.values value hvalue
    have htype : v.type = attrType isMoSpiVersion2 type := h.type
    rw [hbase, htype]
    rw [htype] at htyped
    exact convertValue_of_convert hp htyped p.paramName
  have htemp : (if 1 < (convertValues env [] isMoSpiVersion2 type v.values).length then
      reorder (convertValues env [] isMoSpiVersion2 type v.values)
      else some (convertValues env [] isMoSpiVersion2 type v.values)) =
        some (convertValues env [] isMoSpiVersion2 type v.values) := by
    split <;> rename_i hmulti
    · rw [hlen] at hmulti
      refine reorder_of_numbers ?_
      rw [hlen]
      exact numbers_convertValues h.attrType_hasCase hmulti
    · rfl
  constructor
  · intro hread
    have hok := convertSimpleToMoAttribute_ok_iff.mp ((convertSimpleToMoAttribute_snd _ _).mp
      (by rw [hread]; exact Option.some_ne_none _))
    obtain ⟨type', htype, ⟨hmin, hmax⟩, -⟩ := hok
    obtain rfl := Option.some.inj htype
    rw [convertSimpleToMoAttribute_eq hcase hne hmin hmax htemp] at hread
    obtain ⟨values, hmap, heq⟩ := Option.map_eq_some_iff.mp hread
    obtain rfl : values = v.values := congrArg MoResult.values heq
    rw [hlen] at hmin hmax
    exact ⟨⟨hmin, hmax⟩, hvalues.mp hmap⟩
  · rintro ⟨⟨hmin, hmax⟩, hback⟩
    rw [← hlen] at hmin hmax
    rw [convertSimpleToMoAttribute_eq hcase hne hmin hmax htemp, hvalues.mpr hback, hbase]
    rfl

theorem readReturn_struct {env : ActionEnv} {ap : MoAction} (hsupported : env.supported = true)
    (hstruct : ap.returnType.type = .struct) (returnParams : List AdminOperationParams) :
    readReturn env ap .ok .ok (some returnParams) =
      ((handleStructToMoAttribute env.translate ap.returnType returnParams).1,
        (handleStructToMoAttribute env.translate ap.returnType returnParams).2.elim .unfinished .structs) := by
  unfold readReturn
  rw [if_pos ⟨hsupported, rfl⟩]
  exact if_pos hstruct

theorem readReturn_simple {env : ActionEnv} {ap : MoAction} (hsupported : env.supported = true)
    (hsimple : ap.returnType.type ≠ .struct) (returnParams : List AdminOperationParams) :
    readReturn env ap .ok .ok (some returnParams) =
      ((convertSimpleToMoAttribute env.translate (some ap.returnType.toDatatypeContainer) returnParams).1,
        (convertSimpleToMoAttribute env.translate (some ap.returnType.toDatatypeContainer) returnParams).2.elim
          .unfinished .simple) := by
  unfold readReturn
  rw [if_pos ⟨hsupported, rfl⟩]
  exact if_neg hsimple

theorem readReturn_iff {env : ActionEnv} {ap : MoAction} (hsupported : env.supported = true)
    (h : AnswerConforms isMoSpiVersion2 ap.returnType c) :
    ∃ returnParams, convertActionReturnToImmParameters env.translate ap.returnType isMoSpiVersion2 [c] =
        (.ok, some returnParams) ∧
      ((readReturn env ap .ok .ok (some returnParams)).1 = .ok ∧
          SameAnswer ap.returnType c (readReturn env ap .ok .ok (some returnParams)).2 ↔
        AnswerComesBack env.translate ap.returnType c) := by
  unfold AnswerComesBack
  by_cases hstruct : ap.returnType.type = .struct
  · obtain ⟨htype, hname, hvalues⟩ := h.struct hstruct
    obtain ⟨struct, hname⟩ := Option.ne_none_iff_exists'.mp hname
    have hback := structs_comeBack_iff env.translate isMoSpiVersion2 hstruct hname h.ne_nil hvalues
    have hconvert := @convertActionReturnToImmParameters_struct env.translate _ _ _ _ hstruct hname hvalues
    rw [show (⟨.struct, c.values⟩ : AttributeValueContainer) = c by rw [← htype]] at hconvert
    refine ⟨_, hconvert, ?_⟩
    rw [readReturn_struct hsupported hstruct, if_pos hstruct, hname]
    simp only [Option.mem_some_iff, forall_eq']
    rw [← hback]
    constructor
    · rintro ⟨hok, hsame⟩
      cases hstructs : (handleStructToMoAttribute env.translate ap.returnType
          ((slots ap.returnType.members c.values).flatMap
            (Slot.params env.translate isMoSpiVersion2 struct c.values.length))).2 with
      | none =>
        rw [hstructs] at hsame
        exact hsame.elim
      | some structs =>
        rw [hstructs] at hsame
        refine ⟨_, structs, ?_, Prod.ext hok hstructs, hsame.2⟩
        rw [show (⟨.struct, c.values⟩ : AttributeValueContainer) = c by rw [← htype], hconvert]
    · rintro ⟨returnParams', structs, hconvert', hhandle, hsame⟩
      rw [show (⟨.struct, c.values⟩ : AttributeValueContainer) = c by rw [← htype], hconvert] at hconvert'
      obtain rfl := Option.some.inj (Prod.ext_iff.mp hconvert').2
      rw [hhandle]
      exact ⟨rfl, hstruct, hsame⟩
  · refine ⟨_, h.convert_simple hstruct, ?_⟩
    have hback := @convertSimple_values env.translate isMoSpiVersion2 _ _ (h.conforms hstruct)
    rw [List.length_map, List.forall_mem_map] at hback
    rw [readReturn_simple hsupported hstruct, if_neg hstruct, ← hback]
    constructor
    · rintro ⟨-, hsame⟩
      cases hresult : (convertSimpleToMoAttribute env.translate (some ap.returnType.toDatatypeContainer)
          (convertValues env.translate [] isMoSpiVersion2 ap.returnType.toDatatypeContainer
            (c.values.map ComValue.simple))).2 with
      | none =>
        rw [hresult] at hsame
        exact hsame.elim
      | some r =>
        rw [hresult] at hsame
        exact congrArg some hsame.2
    · intro hresult
      refine ⟨(convertSimpleToMoAttribute_snd _ _).mp (by rw [hresult]; exact Option.some_ne_none _), ?_⟩
      rw [hresult]
      exact ⟨hstruct, rfl⟩

end

/-! ## The implementer -/

def resultSent : AdminCall → Option (SaAisCode × ReturnParams)
  | .result code returnParams => some (code, returnParams)
  | _ => none

/-- IMM takes the operation to the implementer of the object, and the first result that it sends back to the caller.
The call fails where none is sent. Nothing is told of the texts of errors. -/
structure Joined (env : ActionEnv) (oi : AdminEnv) (errno : Int) (s : OIproxy.OIProxy) : Prop where
  sent : ∀ operationId opPP run code returnParams,
    OIProxy_handleAdminOperation oi ⟨env.immDn, operationId, some opPP⟩ errno s = some run →
      run.calls.findSome? resultSent = some (code, returnParams) →
        (env.invoke env.immDn operationId opPP).saError = .ok ∧
          (env.invoke env.immDn operationId opPP).operationReturnValue = .code code ∧
          ∀ values, returnParams = .values values →
            (env.invoke env.immDn operationId opPP).returnParams = values
  silent : ∀ operationId opPP run,
    OIProxy_handleAdminOperation oi ⟨env.immDn, operationId, some opPP⟩ errno s = some run →
      run.calls.findSome? resultSent = none → (env.invoke env.immDn operationId opPP).saError ≠ .ok

section
variable {oi : AdminEnv} {moDn : String} {moIfVersion : RegisteredMoInterface}

theorem findTarget_cases (request : AdminRequest) (hparse : oi.parseImmDN request.immDn = some (moDn, -1))
    (hreg : findImplementer oi moDn = .found moIfVersion) (errno : Int) :
    (∃ ap, findAction request.operationId errno (oi.GetComActionList moDn) = .found ap ∧
      (translateParameters moIfVersion ap.parameters request.params).1 = .ok ∧
      findTarget oi request errno =
        .ok ⟨moDn, moIfVersion, ap, (translateParameters moIfVersion ap.parameters request.params).2⟩) ∨
    ((∀ ap, findAction request.operationId errno (oi.GetComActionList moDn) = .found ap →
        (translateParameters moIfVersion ap.parameters request.params).1 = .ok →
          ¬ WrittenInside request.params (translateParameters moIfVersion ap.parameters request.params).2) ∧
      ∃ calls, actionsCalled calls = [] ∧ findTarget oi request errno = .error calls) := by
  unfold findTarget
  rw [hparse]
  dsimp only
  rw [if_pos rfl, hreg]
  dsimp only
  by_cases hlist : oi.GetComActionList moDn = []
  · rw [if_pos hlist, hlist]
    refine Or.inr ⟨fun ap hfound => ?_, _, rfl, rfl⟩
    cases hfound
  · rw [if_neg hlist]
    cases hlookup : findAction request.operationId errno (oi.GetComActionList moDn) with
    | erroneous | notFound =>
      refine Or.inr ⟨fun ap hfound => ?_, _, rfl, rfl⟩
      cases hfound
    | found ap =>
      dsimp only
      by_cases hinside : WrittenInside request.params (translateParameters moIfVersion ap.parameters request.params).2
      · rw [if_neg (not_not_intro hinside)]
        by_cases hok : (translateParameters moIfVersion ap.parameters request.params).1 = .ok
        · rw [if_pos hok]
          exact Or.inl ⟨ap, rfl, hok, rfl⟩
        · rw [if_neg hok]
          refine Or.inr ⟨fun ap' hfound hok' => ?_, _, rfl, rfl⟩
          rw [← Lookup.found.inj hfound] at hok'
          exact absurd hok' hok
      · rw [if_pos hinside]
        refine Or.inr ⟨fun ap' hfound _ => ?_, _, rfl, rfl⟩
        rw [← Lookup.found.inj hfound]
        exact hinside

theorem handleAdminOperation_cases {s : OIproxy.OIProxy} (hs : s.Ok) (request : AdminRequest)
    (hparse : oi.parseImmDN request.immDn = some (moDn, -1))
    (hreg : findImplementer oi moDn = .found moIfVersion) (errno : Int) :
    (∃ ap tx s', findAction request.operationId errno (oi.GetComActionList moDn) = .found ap ∧
      (translateParameters moIfVersion ap.parameters request.params).1 = .ok ∧ Opens oi ∧
      OIProxy_handleAdminOperation oi request errno s = some (runTransaction oi
        ⟨moDn, moIfVersion, ap, (translateParameters moIfVersion ap.parameters request.params).2⟩ tx s')) ∨
    ((∀ ap, findAction request.operationId errno (oi.GetComActionList moDn) = .found ap →
        (translateParameters moIfVersion ap.parameters request.params).1 = .ok →
          WrittenInside request.params (translateParameters moIfVersion ap.parameters request.params).2 →
            ¬ Opens oi) ∧
      ∃ calls s', actionsCalled calls = [] ∧ OIProxy_handleAdminOperation oi request errno s =
        some ⟨calls, s'⟩) := by
  unfold OIProxy_handleAdminOperation
  rcases findTarget_cases request hparse hreg errno with ⟨ap, hfound, hok, htarget⟩ | ⟨hnone, calls, hcalls, htarget⟩
  · rw [htarget]
    dsimp only
    rcases runAction_spec hs oi
        ⟨moDn, moIfVersion, ap, (translateParameters moIfVersion ap.parameters request.params).2⟩ with
      ⟨hclosed, text, s', hrun⟩ | ⟨hopens, tx, s', hrun⟩
    · exact Or.inr ⟨fun _ _ _ _ => hclosed, _, s', rfl, hrun⟩
    · exact Or.inl ⟨ap, tx, s', hfound, hok, hopens, hrun⟩
  · rw [htarget]
    exact Or.inr ⟨fun ap hfound hok hinside => absurd hinside (hnone ap hfound hok), calls, s, hcalls, rfl⟩

theorem runTransaction_cases (target : Target) {returnParams : List AdminOperationParams}
    (haction : oi.action = (.ok, some c))
    (hget : GetComAction (oi.GetComActionList target.moDn) target.ap.name = some target.ap)
    (hvoid : target.ap.returnType.type ≠ .void)
    (hconvert : convertActionReturnToImmParameters oi.translate target.ap.returnType
      (target.moIfVersion = .managedObject2) [c] = (.ok, some returnParams))
    (tx : OIproxy.TxHandle) (s : OIproxy.OIProxy) :
    (oi.explicitPrepare = .ok ∧ oi.commit = .ok ∧ (runTransaction oi target tx s).calls =
      [.action target.moDn target.ap.name target.parameters .ok, .explicitPrepare .ok, .commit .ok, .convert .ok,
        .result .ok (.values (some returnParams))]) ∨
    (¬ (oi.explicitPrepare = .ok ∧ oi.commit = .ok) ∧ ∀ returned,
      (runTransaction oi target tx s).calls.findSome? resultSent ≠ some (.ok, returned)) := by
  unfold runTransaction
  rw [haction]
  dsimp only
  rw [if_pos rfl]
  by_cases hprepare : oi.explicitPrepare = .ok
  · rw [if_pos hprepare, hget]
    dsimp only
    unfold answerAction
    rw [if_neg fun hand => hvoid hand.1]
    by_cases hcommit : oi.commit = .ok
    · rw [if_pos hcommit, haction]
      dsimp only
      rw [hconvert, hprepare, hcommit]
      exact Or.inl ⟨rfl, rfl, rfl⟩
    · rw [if_neg hcommit]
      refine Or.inr ⟨fun hand => hcommit hand.2, fun returned hsent => ?_⟩
      cases hsent
  · rw [if_neg hprepare]
    refine Or.inr ⟨fun hand => hprepare hand.1, fun returned hsent => ?_⟩
    cases hmessages : GetErrMsgsFromThContext oi.threadContext with
    | failed | untouched =>
      rw [hmessages] at hsent
      cases hsent
    | messages errorStrings =>
      rw [hmessages] at hsent
      exact hprepare (mapComCodeToImmCode_eq_ok (congrArg Prod.fst (Option.some.inj hsent)))

end

/-! ## The caller -/

theorem mapSaError_eq_ok {retVal : MafCode} {saError : AisCode} :
    mapSaError retVal saError = .ok ↔ retVal = .ok ∧ saError = .ok := by
  cases saError with
  | code c => cases c <;> simp [mapSaError, MafCode.ok, AisCode.ok]
  | _ => simp [mapSaError, MafCode.ok, AisCode.ok]

theorem GetComAction_some {actions : List MoAction} {name : List Char} {ap : MoAction}
    (h : GetComAction actions name = some ap) : ap.name = name ∧ ap ∈ actions := by
  unfold GetComAction at h
  split at h
  · exact ⟨by simpa using List.find?_some h, List.mem_of_find?_eq_some h⟩
  · cases h

section
variable {env : ActionEnv} {ap : MoAction} {operationId : Nat} {opPP : List AdminOperationParams}

theorem retVal_ok_iff :
    releaseOwner env (invokeOperation env ap operationId opPP).1 = .ok ↔
      env.adminOwnerRelease = .ok ∧ (env.invoke env.immDn operationId opPP).saError = .ok ∧
        (env.invoke env.immDn operationId opPP).operationReturnValue = .ok ∧
        (readReturn env ap .ok .ok (env.invoke env.immDn operationId opPP).returnParams).1 = .ok := by
  unfold releaseOwner invokeOperation
  dsimp only
  generalize env.invoke env.immDn operationId opPP = invoked
  by_cases hrelease : env.adminOwnerRelease = .ok
  · rw [if_pos hrelease, and_iff_right hrelease, mapSaError_eq_ok]
    by_cases hcall : invoked.saError = .ok
    · rw [if_pos hcall, and_iff_right hcall, and_comm]
      refine and_congr_right fun hreturned => ?_
      rw [hreturned]
      exact ⟨MafCode.code.inj, congrArg MafCode.code⟩
    · rw [if_neg hcall]
      exact iff_of_false (fun h => hcall h.2) fun h => hcall h.1
  · rw [if_neg hrelease]
    exact iff_of_false (by decide) fun h => hrelease h.1

theorem invokeOperation_snd (hcall : (env.invoke env.immDn operationId opPP).saError = .ok)
    (hreturned : (env.invoke env.immDn operationId opPP).operationReturnValue = .ok) :
    (invokeOperation env ap operationId opPP).2 =
      (readReturn env ap .ok .ok (env.invoke env.immDn operationId opPP).returnParams).2 := by
  unfold invokeOperation
  dsimp only
  rw [if_pos hcall, hreturned]

end

/-! ## Both ends -/

/-- Both ends have the same object, names and model, in which the actions of the object have names that differ. -/
structure SameModel (env : ActionEnv) (oi : AdminEnv) (moDn : String) (moIfVersion : RegisteredMoInterface) :
    Prop where
  parsed : oi.parseImmDN env.immDn = some (moDn, -1)
  implementer : findImplementer oi moDn = .found moIfVersion
  translate : oi.translate = env.translate
  actions : oi.GetComActionList moDn = env.GetComActionList
  distinct : (env.GetComActionList.map (·.name)).Nodup

/-- The implementer is called for the object with the parameters of the caller and it is committed, and the caller
gets what it answered. -/
structure CarriedOut (env : ActionEnv) (oi : AdminEnv) (errno : Int) (s : OIproxy.OIProxy) (moDn : String)
    (moIfVersion : RegisteredMoInterface) (ap : MoAction) (theComParameterList : List AttributeValueContainer)
    (c : AttributeValueContainer) (run : BridgeRun) : Prop where
  ok : run.retVal = .ok
  answer : ∃ value, run.result = some value ∧ SameAnswer ap.returnType c value
  called : ∃ operationId opPP answered writes, run.invoked = some (env.immDn, operationId, opPP) ∧
    OIProxy_handleAdminOperation oi ⟨env.immDn, operationId, some opPP⟩ errno s = some answered ∧
    .action moDn ap.name writes .ok ∈ answered.calls ∧ .commit .ok ∈ answered.calls ∧
    Received moIfVersion ap.parameters theComParameterList writes

/-- Both ends are ready, the id leads to the action again, and what is sent each way comes through. -/
structure ComesThrough (env : ActionEnv) (oi : AdminEnv) (errno : Int) (operationId : Nat)
    (moIfVersion : RegisteredMoInterface) (ap : MoAction) (theComParameterList : List AttributeValueContainer)
    (c : AttributeValueContainer) : Prop where
  ready : Ready env
  released : env.adminOwnerRelease = .ok
  clear : errno ≠ ERANGE
  mapped : findAction operationId 0 env.GetComActionList = .found ap
  passed : Passed moIfVersion ap.parameters theComParameterList
  opens : Opens oi
  prepared : oi.explicitPrepare = .ok
  committed : oi.commit = .ok
  back : AnswerComesBack env.translate ap.returnType c

section
variable {env : ActionEnv} {oi : AdminEnv} {errno : Int} {s : OIproxy.OIProxy} {moDn : String}
  {moIfVersion : RegisteredMoInterface} {ap : MoAction} {theComParameterList : List AttributeValueContainer}
  {c : AttributeValueContainer} {operationId : Nat} {opPP returnParams : List AdminOperationParams}

theorem ComesThrough.found (h : ComesThrough env oi errno operationId moIfVersion ap theComParameterList c)
    (hsame : SameModel env oi moDn moIfVersion) :
    findAction operationId errno (oi.GetComActionList moDn) = .found ap := by
  rw [hsame.actions, findAction_clear h.clear, h.mapped]

theorem ComesThrough.received (h : ComesThrough env oi errno operationId moIfVersion ap theComParameterList c)
    (hwell : WellTyped theComParameterList) (hsend : sendParameters env ap theComParameterList .ok = (.ok, some opPP)) :
    (translateParameters moIfVersion ap.parameters (some opPP)).1 = .ok ∧
      Received moIfVersion ap.parameters theComParameterList
        (translateParameters moIfVersion ap.parameters (some opPP)).2 := by
  obtain ⟨sent, hsent, hreceived⟩ := (@received_iff env moIfVersion ap theComParameterList hwell).mpr h.passed
  rw [hsend] at hsent
  obtain rfl := Option.some.inj (Prod.ext_iff.mp hsent).2
  exact hreceived

theorem SameModel.eq_of_called {target : Target} {tx : OIproxy.TxHandle}
    {writes : List (Nat × NamedAttributeValueContainer)} (hsame : SameModel env oi moDn moIfVersion)
    (hmem : ap ∈ env.GetComActionList) (htarget : target.moDn = moDn)
    (hfound : findAction operationId errno (oi.GetComActionList moDn) = .found target.ap)
    (hcalled : .action moDn ap.name writes .ok ∈ (runTransaction oi target tx s).calls) : target.ap = ap := by
  have hin := mem_of_findAction hfound
  have hrun := runTransaction_spec oi target tx s (htarget ▸ hin)
  have hname : (moDn, ap.name) ∈ actionsCalled (runTransaction oi target tx s).calls :=
    List.mem_filterMap.mpr ⟨_, hcalled, rfl⟩
  rw [hrun.called, List.mem_singleton] at hname
  exact List.inj_on_of_nodup_map hsame.distinct (hsame.actions ▸ hin) hmem (congrArg Prod.snd hname).symm

theorem Joined.of_run (hjoined : Joined env oi errno s) {run : AdminRun}
    (hrun : OIProxy_handleAdminOperation oi ⟨env.immDn, operationId, some opPP⟩ errno s = some run)
    (hcall : (env.invoke env.immDn operationId opPP).saError = .ok)
    (hreturned : (env.invoke env.immDn operationId opPP).operationReturnValue = .ok) :
    ∃ returned, run.calls.findSome? resultSent = some (.ok, returned) := by
  cases hfirst : run.calls.findSome? resultSent with
  | none => exact absurd hcall (hjoined.silent operationId opPP run hrun hfirst)
  | some sent =>
    obtain ⟨code, returned⟩ := sent
    have hcode := (hjoined.sent operationId opPP run code returned hrun hfirst).2.1
    rw [hreturned] at hcode
    exact ⟨returned, by rw [AisCode.code.inj hcode]⟩

/-! The operation was sent, and run with the action that was found. -/

section
variable {found : MoAction} {tx : OIproxy.TxHandle} {s' : OIproxy.OIProxy}
  (hjoined : Joined env oi errno s) (hsupported : env.supported = true) (hsame : SameModel env oi moDn moIfVersion)
  (hname : GetComAction env.GetComActionList ap.name = some ap) (hwell : WellTyped theComParameterList)
  (haction : oi.action = (.ok, some c))
  (hanswer : AnswerConforms (moIfVersion = .managedObject2) ap.returnType c)
  (hsend : sendParameters env ap theComParameterList .ok = (.ok, some opPP))
  (hfound : findAction operationId errno (oi.GetComActionList moDn) = .found found)
  (hhandle : OIProxy_handleAdminOperation oi ⟨env.immDn, operationId, some opPP⟩ errno s = some (runTransaction oi
    ⟨moDn, moIfVersion, found, (translateParameters moIfVersion found.parameters (some opPP)).2⟩ tx s'))
include hjoined hsupported hsame hname hwell haction hanswer hsend hfound hhandle

theorem CarriedOut.comesThrough (hready : Ready env)
    (hok : (translateParameters moIfVersion found.parameters (some opPP)).1 = .ok) (hopens : Opens oi)
    (h : CarriedOut env oi errno s moDn moIfVersion ap theComParameterList c
      ⟨some (env.immDn, operationId, opPP), releaseOwner env (invokeOperation env ap operationId opPP).1,
        some (invokeOperation env ap operationId opPP).2⟩) :
    ComesThrough env oi errno operationId moIfVersion ap theComParameterList c := by
  obtain ⟨hret, ⟨value, hvalue, hsameAnswer⟩, id, sent, answered, writes, hinvoked, hhandle', hcalled, -,
    hreceived⟩ := h
  cases hinvoked
  obtain rfl := Option.some.inj (hhandle.symm.trans hhandle')
  obtain rfl := hsame.eq_of_called (GetComAction_some hname).2 rfl hfound hcalled
  obtain ⟨hreleased, hcall, hreturned, hread⟩ := retVal_ok_iff.mp hret
  have hclear : errno ≠ ERANGE := by
    rintro rfl
    exact findAction_erange _ _ _ hfound
  have hmapped : findAction operationId 0 env.GetComActionList = .found found := by
    rw [← hsame.actions, ← findAction_clear hclear, hfound]
  obtain ⟨returnParams, hconvert, hback⟩ := readReturn_iff hsupported hanswer
  rw [← hsame.translate] at hconvert
  rw [← hsame.actions] at hname
  rcases runTransaction_cases ⟨moDn, moIfVersion, found, _⟩ haction hname hanswer.ne_void hconvert tx s' with
    ⟨hprepare, hcommit, hcalls⟩ | ⟨-, hnever⟩
  · rw [hcalls] at hcalled
    obtain rfl : writes = _ := by simpa using hcalled
    have hsent := (hjoined.sent _ _ _ _ _ hhandle (by rw [hcalls]; rfl)).2.2 _ rfl
    obtain rfl := Option.some.inj hvalue
    rw [invokeOperation_snd hcall hreturned, hsent] at hsameAnswer
    rw [hsent] at hread
    exact ⟨hready, hreleased, hclear, hmapped, (received_iff hwell).mp ⟨opPP, hsend, hok, hreceived⟩, hopens,
      hprepare, hcommit, hback.mp ⟨hread, hsameAnswer⟩⟩
  · -- the caller has a good code, so a good result was sent
    obtain ⟨returned, hfirst⟩ := hjoined.of_run hhandle hcall hreturned
    exact absurd hfirst (hnever returned)

theorem ComesThrough.carriedOut (h : ComesThrough env oi errno operationId moIfVersion ap theComParameterList c) :
    CarriedOut env oi errno s moDn moIfVersion ap theComParameterList c
      ⟨some (env.immDn, operationId, opPP), releaseOwner env (invokeOperation env ap operationId opPP).1,
        some (invokeOperation env ap operationId opPP).2⟩ := by
  obtain rfl : found = ap := Lookup.found.inj (hfound.symm.trans (h.found hsame))
  obtain ⟨returnParams, hconvert, hback⟩ := readReturn_iff hsupported hanswer
  rw [← hsame.translate] at hconvert
  rw [← hsame.actions] at hname
  rcases runTransaction_cases ⟨moDn, moIfVersion, found, _⟩ haction hname hanswer.ne_void hconvert tx s' with
    ⟨-, -, hcalls⟩ | ⟨hfailed, -⟩
  · obtain ⟨hcall, hreturned, hsent⟩ := hjoined.sent _ _ _ _ _ hhandle (by rw [hcalls]; rfl)
    obtain ⟨hread, hsameAnswer⟩ := hback.mpr h.back
    rw [← hsent _ rfl] at hread hsameAnswer
    rw [← invokeOperation_snd hcall hreturned] at hsameAnswer
    refine ⟨retVal_ok_iff.mpr ⟨h.released, hcall, hreturned, hread⟩, ⟨_, rfl, hsameAnswer⟩, operationId, opPP, _, _,
      rfl, hhandle, ?_, ?_, (h.received hwell hsend).2⟩
    · rw [hcalls]
      exact List.mem_cons_self
    · rw [hcalls]
      simp
  · exact absurd ⟨h.prepared, h.committed⟩ hfailed

end

/-- An action is carried out at the other end of IMM and answers exactly where it comes through. -/
theorem remote_action_iff {name : List Char} (hs : s.Ok) (hjoined : Joined env oi errno s)
    (hsupported : env.supported = true) (hsame : SameModel env oi moDn moIfVersion)
    (hname : GetComAction env.GetComActionList name = some ap) (hid : HasOneId ap operationId)
    (hwell : WellTyped theComParameterList) (haction : oi.action = (.ok, some c))
    (hanswer : AnswerConforms (moIfVersion = .managedObject2) ap.returnType c) :
    CarriedOut env oi errno s moDn moIfVersion ap theComParameterList c (action env name theComParameterList) ↔
      ComesThrough env oi errno operationId moIfVersion ap theComParameterList c := by
  obtain ⟨rfl, -⟩ := GetComAction_some hname
  rcases action_spec hname hid theComParameterList with ⟨opPP, hready, hsend, hrun⟩ | ⟨hnot, hnone⟩
  · rw [hrun]
    rcases handleAdminOperation_cases hs ⟨env.immDn, operationId, some opPP⟩ hsame.parsed hsame.implementer errno with
      ⟨found, tx, s', hfound, hok, hopens, hhandle⟩ | ⟨hclosed, calls, s', hcalls, hhandle⟩
    · exact ⟨CarriedOut.comesThrough hjoined hsupported hsame hname hwell haction hanswer hsend hfound hhandle hready
          hok hopens,
        ComesThrough.carriedOut hjoined hsupported hsame hname hwell haction hanswer hsend hfound hhandle⟩
    · refine iff_of_false ?_ fun h => ?_
      · rintro ⟨-, -, id, sent, answered, writes, hinvoked, hhandle', hcalled, -⟩
        cases hinvoked
        obtain rfl := Option.some.inj (hhandle.symm.trans hhandle')
        have hmem : (moDn, ap.name) ∈ actionsCalled calls := List.mem_filterMap.mpr ⟨_, hcalled, rfl⟩
        rw [hcalls] at hmem
        cases hmem
      · obtain ⟨hok, hreceived⟩ := h.received hwell hsend
        refine hclosed ap (h.found hsame) hok (fun w hw => ?_) h.opens
        exact (hreceived.inside w hw).trans_eq (h.passed.length_of_sent hsend).symm
  · refine iff_of_false ?_ fun h => ?_
    · rintro ⟨-, -, id, sent, answered, writes, hinvoked, -⟩
      rw [hnone] at hinvoked
      cases hinvoked
    · obtain ⟨opPP, hsend, -⟩ := (@received_iff env moIfVersion ap theComParameterList hwell).mpr h.passed
      exact hnot ⟨opPP, h.ready, hsend⟩

end

/-! ## An object at both ends -/

/-- IMM between the caller and the implementer. The texts of errors are left out. -/
def through (oi : AdminEnv) (errno : Int) (s : OIproxy.OIProxy) (immDn : String) (operationId : Nat)
    (opPP : List AdminOperationParams) : Invoked :=
  match (OIProxy_handleAdminOperation oi ⟨immDn, operationId, some opPP⟩ errno s).bind
      fun run => run.calls.findSome? resultSent with
  | some (code, .values values) => ⟨.ok, .code code, values⟩
  | some (code, _) => ⟨.ok, .code code, none⟩
  | none => ⟨.code .timeout, .ok, none⟩

theorem joined_through {env : ActionEnv} {oi : AdminEnv} {errno : Int} {s : OIproxy.OIProxy}
    (h : env.invoke = through oi errno s) : Joined env oi errno s where
  sent operationId opPP run code returnParams hrun hsent := by
    rw [h, through, hrun, Option.bind_some, hsent]
    cases returnParams with
    | values => exact ⟨rfl, rfl, fun _ hvalues => ReturnParams.values.inj hvalues⟩
    | _ => exact ⟨rfl, rfl, nofun⟩
  silent operationId opPP run hrun hsilent := by
    rw [h, through, hrun, Option.bind_some, hsilent]
    nofun

def countAction : MoAction where
  name := "count".toList
  returnType := ⟨⟨.int32, .void, 1, 1⟩, none, []⟩
  parameters := [⟨"step".toList, ⟨⟨.int32, .void, 1, 1⟩, none, []⟩⟩]
  domainExtension := some ⟨some OIproxy.Admin.DOMAIN_NAME_COREMW,
    [⟨some OIproxy.Admin.DOMAIN_EXT_NAME_ADM_OP_ID, some "7".toList⟩]⟩

def countingOi : AdminEnv :=
  { OIproxy.Admin.countingEnv with GetComActionList := fun _ => [countAction] }

def countingCaller : ActionEnv where
  getTxContext := true
  IsDnListValid := true
  immDn := "aId=1"
  isAdminOwnerFor := false
  GetComActionList := [countAction]
  errno := 0
  checkSetAdminOwner := .ok
  isAdminOwnerLockedByAnotherTx := false
  invoke := through countingOi 0 .initial
  supported := true
  adminOwnerRelease := .ok
  translate := countingOi.translate

def oneNumber (n : Int) : AttributeValueContainer := ⟨.int32, [⟨.number n, ⟨.void, []⟩, []⟩]⟩

theorem remote_action_counting :
    CarriedOut countingCaller countingOi 0 .initial "A=1" .managedObject3 countAction [oneNumber 3] (oneNumber 5)
      (action countingCaller "count".toList [oneNumber 3]) := by
  have hsame : SameModel countingCaller countingOi "A=1" .managedObject3 := ⟨rfl, rfl, rfl, rfl, by decide⟩
  have hid : HasOneId countAction 7 := ⟨_, rfl, rfl, "7".toList, by decide, by decide⟩
  have hwell : WellTyped [oneNumber 3] := by
    intro v hv _ x hx
    obtain rfl := List.mem_singleton.mp hv
    obtain rfl := List.mem_singleton.mp hx
    rfl
  have hanswer : AnswerConforms (RegisteredMoInterface.managedObject3 = .managedObject2) countAction.returnType
      (oneNumber 5) := by
    refine ⟨by decide, nofun, fun _ => ⟨rfl, fun x hx => ?_⟩⟩
    obtain rfl := List.mem_singleton.mp hx
    rfl
  have hpassed : Passed .managedObject3 countAction.parameters [oneNumber 3] := by
    refine ⟨by decide, by decide, fun m hm => ?_⟩
    obtain rfl := List.mem_singleton.mp hm
    exact ⟨rfl, rfl, _, rfl, trivial⟩
  have hback : AnswerComesBack countingCaller.translate countAction.returnType (oneNumber 5) := by
    refine ⟨by decide, fun x hx => ?_⟩
    obtain rfl := List.mem_singleton.mp hx
    trivial
  exact (remote_action_iff OIproxy.ok_initial (joined_through rfl) rfl hsame rfl hid hwell rfl hanswer).mpr
    ⟨⟨rfl, rfl, rfl, by decide, rfl⟩, rfl, by decide, by decide, hpassed, ⟨rfl, rfl, rfl, rfl⟩, rfl, rfl, hback⟩

end ComSA.Action
