import ComSA.OIproxy.AdminResult

/-!
# Actions of the bridge

An action goes to IMM as an admin operation with the id that the model tells for it. The owner of the object
is set before and released after it. What the operation answers is read by the type that the model tells.
-/

namespace ComSA.Action

open OIproxy.Admin (MafCode SaAisCode MoAction Extension strtoull ERANGE DOMAIN_NAME_COREMW
  DOMAIN_EXT_NAME_ADM_OP_ID GetComAction)

/-! ## Codes -/

inductive AisCode where
  | code (c : SaAisCode)
  | library
  | init
  | badHandle
  | noMemory
  | unavailable
  | busy
  | other
  deriving DecidableEq, Repr

def AisCode.ok : AisCode := .code .ok

def mapSaError (retVal : MafCode) : AisCode → MafCode
  | .code .ok => retVal
  | .library | .init | .code .badOperation | .code .failedOperation => .code .failure
  | .code .timeout => .timeOut
  | .code .tryAgain => .tryAgain
  | .badHandle | .code .invalidParam => .code .invalidArgument
  | .noMemory | .code .noResources | .unavailable => .code .noResources
  | .code .notExist => .code .notExist
  | .busy => .code .objectLocked
  | .code .exist | .code .notReady | .other => .code .failure

/-! ## What is called -/

structure Invoked where
  saError : AisCode
  operationReturnValue : AisCode
  returnParams : Option (List AdminOperationParams)

structure ActionEnv where
  getTxContext : Bool
  IsDnListValid : Bool
  immDn : String
  isAdminOwnerFor : Bool
  GetComActionList : List MoAction
  errno : Int
  checkSetAdminOwner : AisCode
  isAdminOwnerLockedByAnotherTx : Bool
  invoke : String → Nat → List AdminOperationParams → Invoked
  /-- The version of IMM has parameters that are returned. -/
  supported : Bool
  adminOwnerRelease : AisCode
  translate : TranslateEnv

inductive ActionValue where
  | nothing
  | simple (result : MoResult)
  | structs (result : List StructResult)
  | unfinished
  deriving DecidableEq, Repr

structure BridgeRun where
  invoked : Option (String × Nat × List AdminOperationParams)
  retVal : MafCode
  result : Option ActionValue

/-! ## The id of the operation -/

structure OperationId where
  ok : Bool
  operationId : Nat
  retVal : MafReturn
  admOpFound : Bool
  errno : Int
  deriving DecidableEq, Repr

/-- The id is set, whatever became of the error number. -/
def readExtension (r : OperationId) (ep : Extension) : OperationId :=
  if ep.name = some DOMAIN_EXT_NAME_ADM_OP_ID then
    match ep.value with
    | none => { r with admOpFound := true, retVal := .failure }
    | some value =>
      let operationId := strtoull value r.errno
      if operationId.2 ≠ ERANGE ∨ operationId.2 = 0 then
        ⟨true, operationId.1, r.retVal, true, operationId.2⟩
      else ⟨r.ok, operationId.1, .failure, true, operationId.2⟩
  else r

def readExtensions (errno : Int) (extensions : List Extension) : OperationId :=
  let r := extensions.foldl readExtension ⟨false, 0, .ok, false, errno⟩
  if r.admOpFound then r else { r with retVal := .failure }

def noOperationId (errno : Int) : OperationId := ⟨false, 0, .failure, false, errno⟩

def readOperationId (moAction : Option MoAction) (errno : Int) : OperationId :=
  match moAction.bind MoAction.domainExtension with
  | none => noOperationId errno
  | some dp =>
    if dp.domain = some DOMAIN_NAME_COREMW then readExtensions errno dp.extensions else noOperationId errno

/-! ## The operation -/

def ownObject (env : ActionEnv) (r : OperationId) : Bool × MafReturn :=
  if r.ok then
    if env.checkSetAdminOwner = .ok then (true, r.retVal)
    else if env.isAdminOwnerLockedByAnotherTx ∨ env.checkSetAdminOwner ≠ .code .notExist then (false, .objectLocked)
    else (false, .failure)
  else (false, r.retVal)

def sendParameters (env : ActionEnv) (ap : MoAction) (parameters : List AttributeValueContainer)
    (retVal : MafReturn) : MafReturn × Option (List AdminOperationParams) :=
  if parameters ≠ [] then convertToAdminOpParameters env.translate ap.parameters parameters
  else result (retVal, [])

def readReturn (env : ActionEnv) (ap : MoAction) (operationReturnValue operationReturnValue_adminOp : AisCode)
    (returnParams : Option (List AdminOperationParams)) : MafReturn × ActionValue :=
  match if env.supported ∧ operationReturnValue_adminOp = .ok then returnParams else none with
  | none =>
    if ap.returnType.type = .bool then (.ok, .simple ⟨.bool, [.flag (operationReturnValue = .ok)]⟩)
    else (.ok, .nothing)
  | some returnParams =>
    if ap.returnType.type = .struct then
      let r := handleStructToMoAttribute env.translate ap.returnType returnParams
      (r.1, r.2.elim .unfinished .structs)
    else
      let r := convertSimpleToMoAttribute env.translate (some ap.returnType.toDatatypeContainer) returnParams
      (r.1, r.2.elim .unfinished .simple)

/-- Where the call itself fails, its code is that of the operation, too. -/
def invokeOperation (env : ActionEnv) (ap : MoAction) (operationId : Nat) (opPP : List AdminOperationParams) :
    MafCode × ActionValue :=
  let invoked := env.invoke env.immDn operationId opPP
  let saError := if invoked.saError = .ok then invoked.operationReturnValue else invoked.saError
  let r := readReturn env ap saError invoked.operationReturnValue invoked.returnParams
  (mapSaError (.code r.1) saError, r.2)

def releaseOwner (env : ActionEnv) (retVal : MafCode) : MafCode :=
  if env.adminOwnerRelease = .ok then retVal else .code .objectLocked

def action (env : ActionEnv) (name : List Char) (parameters : List AttributeValueContainer) : BridgeRun :=
  if !env.getTxContext then ⟨none, .code .notExist, none⟩
  else if !env.IsDnListValid then ⟨none, .code .failure, none⟩
  else if env.isAdminOwnerFor then ⟨none, .code .failure, none⟩
  else
    let moAction := GetComAction env.GetComActionList name
    let r := readOperationId moAction env.errno
    match ownObject env r, moAction with
    | (true, retVal), some ap =>
      match sendParameters env ap parameters retVal with
      | (_, some opPP) =>
        let answer := invokeOperation env ap r.operationId opPP
        ⟨some (env.immDn, r.operationId, opPP), releaseOwner env answer.1, some answer.2⟩
      | (retVal, none) => ⟨none, releaseOwner env (.code retVal), some .nothing⟩
    | (_, retVal), _ => ⟨none, .code retVal, some .nothing⟩

/-! ## One id -/

def HasOneId (ap : MoAction) (operationId : Nat) : Prop :=
  ∃ dp ∈ ap.domainExtension, dp.domain = some DOMAIN_NAME_COREMW ∧
    ∃ value, dp.extensions.filter (fun ep => ep.name = some DOMAIN_EXT_NAME_ADM_OP_ID) =
      [⟨some DOMAIN_EXT_NAME_ADM_OP_ID, some value⟩] ∧ strtoull value 0 = (operationId, 0)

structure Ready (env : ActionEnv) : Prop where
  context : env.getTxContext = true
  dnList : env.IsDnListValid = true
  unchanged : env.isAdminOwnerFor = false
  errno : env.errno ≠ ERANGE
  owner : env.checkSetAdminOwner = .ok

theorem foldl_readExtension (extensions : List Extension) (r : OperationId) :
    extensions.foldl readExtension r =
      (extensions.filter fun ep => ep.name = some DOMAIN_EXT_NAME_ADM_OP_ID).foldl readExtension r := by
  induction extensions generalizing r with
  | nil => rfl
  | cons ep extensions ih =>
    rw [List.foldl_cons, ih]
    by_cases hname : ep.name = some DOMAIN_EXT_NAME_ADM_OP_ID
    · rw [List.filter_cons_of_pos (by simpa using hname), List.foldl_cons]
    · rw [List.filter_cons_of_neg (by simpa using hname), readExtension, if_neg hname]

theorem readOperationId_of_hasOneId {ap : MoAction} {operationId : Nat} (h : HasOneId ap operationId) (errno : Int) :
    readOperationId (some ap) errno =
      if errno = ERANGE then ⟨false, operationId, .failure, true, ERANGE⟩
      else ⟨true, operationId, .ok, true, errno⟩ := by
  obtain ⟨dp, hdp, hdomain, value, hfilter, hvalue⟩ := h
  have hread : strtoull value errno = (operationId, errno) := by
    rw [OIproxy.Admin.strtoull_errno, hvalue]
    rfl
  have hone : readExtensions errno dp.extensions =
      if errno = ERANGE then ⟨false, operationId, .failure, true, ERANGE⟩
      else ⟨true, operationId, .ok, true, errno⟩ := by
    rw [readExtensions, foldl_readExtension, hfilter]
    by_cases herrno : errno = ERANGE
    · subst herrno
      simp [readExtension, hread, show ERANGE ≠ 0 by decide]
    · simp [readExtension, hread, herrno]
  rw [readOperationId, Option.bind_some, Option.mem_def.mp hdp]
  dsimp only
  rw [if_pos hdomain, hone]

theorem sendParameters_some {env : ActionEnv} {ap : MoAction} {parameters : List AttributeValueContainer}
    {retVal : MafReturn} {opPP : List AdminOperationParams}
    (h : (sendParameters env ap parameters retVal).2 = some opPP) :
    sendParameters env ap parameters retVal = (.ok, some opPP) := by
  have hresult {s : MafReturn × List AdminOperationParams} (hs : (result s).2 = some opPP) :
      result s = (.ok, some opPP) := by
    unfold result at hs ⊢
    dsimp only at hs ⊢
    split at hs
    · rename_i hok
      rw [if_pos hok, hok, (Option.some.inj hs)]
    · cases hs
  revert h
  unfold sendParameters convertToAdminOpParameters
  split
  · split
    · intro h
      cases h
    · exact hresult
  · exact hresult

theorem action_spec {env : ActionEnv} {name : List Char} {ap : MoAction} {operationId : Nat}
    (hname : GetComAction env.GetComActionList name = some ap) (hid : HasOneId ap operationId)
    (parameters : List AttributeValueContainer) :
    (∃ opPP, Ready env ∧ sendParameters env ap parameters .ok = (.ok, some opPP) ∧
      action env name parameters = ⟨some (env.immDn, operationId, opPP),
        releaseOwner env (invokeOperation env ap operationId opPP).1,
        some (invokeOperation env ap operationId opPP).2⟩) ∨
    ((¬ ∃ opPP, Ready env ∧ sendParameters env ap parameters .ok = (.ok, some opPP)) ∧
      (action env name parameters).invoked = none) := by
  have hread := readOperationId_of_hasOneId hid env.errno
  unfold action
  have hnone (h : ¬ Ready env) : ¬ ∃ opPP, Ready env ∧ sendParameters env ap parameters .ok = (.ok, some opPP) := by
    rintro ⟨-, hready, -⟩
    exact h hready
  cases hcontext : env.getTxContext with
  | false => exact Or.inr ⟨hnone fun hready => absurd (hcontext.symm.trans hready.context) (by decide), rfl⟩
  | true =>
    cases hvalid : env.IsDnListValid with
    | false => exact Or.inr ⟨hnone fun hready => absurd (hvalid.symm.trans hready.dnList) (by decide), rfl⟩
    | true =>
      cases howner : env.isAdminOwnerFor with
      | true => exact Or.inr ⟨hnone fun hready => absurd (howner.symm.trans hready.unchanged) (by decide), rfl⟩
      | false =>
        simp only [Bool.not_true, Bool.false_eq_true, if_false, hname, hread]
        by_cases herrno : env.errno = ERANGE
        · rw [if_pos herrno]
          exact Or.inr ⟨hnone fun hready => hready.errno herrno, rfl⟩
        · rw [if_neg herrno]
          unfold ownObject
          rw [if_pos rfl]
          by_cases hset : env.checkSetAdminOwner = .ok
          · rw [if_pos hset]
            dsimp only
            have hsend := @sendParameters_some env ap parameters .ok
            generalize sendParameters env ap parameters .ok = sent at hsend ⊢
            obtain ⟨retVal, opPP⟩ := sent
            cases opPP with
            | none =>
              refine Or.inr ⟨?_, rfl⟩
              rintro ⟨opPP, -, heq⟩
              cases heq
            | some opPP =>
              obtain rfl : retVal = .ok := congrArg Prod.fst (hsend rfl)
              exact Or.inl ⟨opPP, ⟨hcontext, hvalid, howner, herrno, hset⟩, rfl, rfl⟩
          · rw [if_neg hset]
            refine Or.inr ⟨hnone fun hready => hset hready.owner, ?_⟩
            by_cases hlocked : env.isAdminOwnerLockedByAnotherTx ∨ env.checkSetAdminOwner ≠ .code .notExist
            · rw [if_pos hlocked]
            · rw [if_neg hlocked]

end ComSA.Action
