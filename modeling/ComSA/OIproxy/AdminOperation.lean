import ComSA.OIproxy.AdminParameters
import ComSA.OIproxy.Callbacks
import ComSA.OIproxy.MocPath

/-!
# Admin operations

An admin operation is an action of a managed object, in a transaction of its own. IMM waits for one result
of it.
-/

namespace ComSA.OIproxy.Admin

open Action (Datatype Parameter ParameterType AdminOperationParams AttributeValueContainer TranslateEnv
  convertActionReturnToImmParameters)

/-! ## Codes -/

/-- `MafReturnT`: an object implementer can return any of its codes. -/
inductive MafCode where
  | code (ret : MafReturn)
  | tryAgain
  | notActive
  | aborted
  | prepareFailed
  | timeOut
  deriving DecidableEq, Repr

def MafCode.ok : MafCode := .code .ok

def MafCode.toReturn : MafCode → MafReturn
  | .code ret => ret
  | _ => .failure

inductive SaAisCode where
  | ok
  | tryAgain
  | notReady
  | failedOperation
  | notExist
  | exist
  | badOperation
  | invalidParam
  | noResources
  | timeout
  deriving DecidableEq, Repr

def mapComCodeToImmCode : MafCode → SaAisCode
  | .code .ok => .ok
  | .tryAgain => .tryAgain
  | .notActive => .notReady
  | .code .failure => .failedOperation
  | .code .notExist => .notExist
  | .code .alreadyExist => .exist
  | .aborted | .code .objectLocked | .prepareFailed | .code .commitFailed => .badOperation
  | .code .invalidArgument => .invalidParam
  | .code .validationFailed => .badOperation
  | .code .noResources => .noResources
  | .timeOut => .timeout

def returnNumber : MafReturn → Int
  | .ok => 0
  | .failure => -1
  | .notExist => -2
  | .alreadyExist => -3
  | .objectLocked => -5
  | .commitFailed => -7
  | .invalidArgument => -8
  | .validationFailed => -9
  | .noResources => -10

/-! ## The action of an operation -/

def ERANGE : Int := 34

def isSpace (c : Char) : Bool := c = ' ' || 9 ≤ c.toNat && c.toNat ≤ 13

def decimal (s : List Char) : Nat :=
  (s.takeWhile Char.isDigit).foldl (fun n c => 10 * n + (c.toNat - '0'.toNat)) 0

def signedDecimal : List Char → Bool × Nat
  | '-' :: rest => (true, decimal rest)
  | '+' :: rest => (false, decimal rest)
  | rest => (false, decimal rest)

/-- With base 10. The error number is set and never cleared. -/
def strtoull (s : List Char) (errno : Int) : Nat × Int :=
  let number := signedDecimal (s.dropWhile isSpace)
  if 2 ^ 64 ≤ number.2 then (2 ^ 64 - 1, ERANGE)
  else (if number.1 then (2 ^ 64 - number.2) % 2 ^ 64 else number.2, errno)

structure Extension where
  name : Option (List Char)
  value : Option (List Char)
  deriving DecidableEq, Repr

structure DomainExtension where
  domain : Option (List Char)
  extensions : List Extension
  deriving DecidableEq, Repr

structure MoAction where
  name : List Char
  returnType : ParameterType
  parameters : List Parameter
  domainExtension : Option DomainExtension
  deriving DecidableEq, Repr

def DOMAIN_NAME_COREMW : List Char := "CoreMW".toList
def DOMAIN_EXT_NAME_ADM_OP_ID : List Char := "admOpId".toList

inductive Match where
  | found
  | erroneous
  | other
  deriving DecidableEq, Repr

def matchExtension (operationId : Nat) (errno : Int) (ep : Extension) : Match :=
  if ep.name = some DOMAIN_EXT_NAME_ADM_OP_ID then
    match ep.value with
    | none => .other
    | some value =>
      let tempOperationId := strtoull value errno
      if tempOperationId.2 ≠ ERANGE ∨ tempOperationId.2 = 0 then
        if operationId = tempOperationId.1 then .found else .other
      else .erroneous
  else .other

def matchExtensions (operationId : Nat) (errno : Int) : List Extension → Match
  | [] => .other
  | ep :: extensions =>
    match matchExtension operationId errno ep with
    | .other => matchExtensions operationId errno extensions
    | result => result

def matchAction (operationId : Nat) (errno : Int) (ap : MoAction) : Match :=
  match ap.domainExtension with
  | none => .other
  | some dp =>
    if dp.domain = some DOMAIN_NAME_COREMW then matchExtensions operationId errno dp.extensions else .other

inductive Lookup where
  | found (ap : MoAction)
  | erroneous
  | notFound
  deriving DecidableEq, Repr

def findAction (operationId : Nat) (errno : Int) : List MoAction → Lookup
  | [] => .notFound
  | ap :: actions =>
    match matchAction operationId errno ap with
    | .found => .found ap
    | .erroneous => .erroneous
    | .other => findAction operationId errno actions

def GetComAction (actions : List MoAction) (actionName : List Char) : Option MoAction :=
  if actionName ≠ [] then actions.find? fun ap => ap.name = actionName else none

/-! ## Messages of the thread context -/

inductive ThreadContextMsgCategory where
  | log
  | nbi
  deriving DecidableEq, Repr

structure ThreadContext where
  fetched : Bool
  supported : Bool
  getInterface : MafCode
  newMessageIterator : ThreadContextMsgCategory → MafCode
  getMessages : ThreadContextMsgCategory → Option (List String)

inductive ErrMsgs where
  | failed
  | untouched
  | messages (errorStrings : List String)
  deriving DecidableEq, Repr

def readMessages (t : ThreadContext) : ErrMsgs :=
  if t.newMessageIterator .log ≠ .ok then .failed
  else if t.newMessageIterator .nbi ≠ .ok then .failed
  else
    -- the second category replaces what the first one gave
    match (t.getMessages .nbi).or (t.getMessages .log) with
    | some errorStrings => .messages errorStrings
    | none => .untouched

def GetErrMsgsFromThContext (t : ThreadContext) : ErrMsgs :=
  if t.fetched then readMessages t
  else if t.supported then if t.getInterface ≠ .ok then .failed else readMessages t
  else .untouched

def ThreadContext.there (t : ThreadContext) : Bool := t.fetched || t.supported && t.getInterface = .ok

def ImmAdmOpNoReturnParams : Nat := 128

inductive ReturnParams where
  | errorStrings (texts : List String)
  | unwritten
  | values (opPP : Option (List AdminOperationParams))
  deriving DecidableEq, Repr

def PrepareErrMsgsForAdmOpResult (messages : List String) : ReturnParams :=
  .errorStrings (messages.take ImmAdmOpNoReturnParams)

/-! ## The callback -/

structure AdminRequest where
  immDn : String
  operationId : Nat
  params : Option (List AdminOperationParams)

structure AdminEnv where
  oi : OIEnv
  parseImmDN : String → Option (String × Int)
  existRegisteredDN : String → Bool
  existRegisteredClass : String → Bool
  getRegisteredDN : String → Option RegisteredMoInterface
  getRegisteredClass : String → Option RegisteredMoInterface
  GetComActionList : String → List MoAction
  getMoIf : Bool
  openTx : OpenAnswers
  action : MafCode × Option AttributeValueContainer
  explicitPrepare : MafCode
  commit : MafCode
  translate : TranslateEnv
  threadContext : ThreadContext

inductive AdminCall where
  | action (dn : String) (name : List Char) (parameters : List (Nat × NamedAttributeValueContainer)) (ret : MafCode)
  | explicitPrepare (ret : MafCode)
  | commit (ret : MafCode)
  | abort
  | convert (ret : MafReturn)
  | result (code : SaAisCode) (returnParams : ReturnParams)
  /-- A pointer is followed that is null or was never set, or memory is written that is not the array's. -/
  | undefined

structure AdminRun where
  calls : List AdminCall
  proxy : OIProxy

def errorResult (code : SaAisCode) (text : String) : AdminCall :=
  .result code (.errorStrings [String.ofList (("@COMNBI@" ++ text).toList.take 254)])

def failedResult (text : String) : AdminCall := errorResult .failedOperation text

inductive Implementer where
  | found (moIfVersion : RegisteredMoInterface)
  | null
  | unregistered
  | noClass
  deriving DecidableEq, Repr

def Implementer.ofRegistered : Option RegisteredMoInterface → Implementer
  | some moIfVersion => .found moIfVersion
  | none => .null

def findImplementer (env : AdminEnv) (moDn : String) : Implementer :=
  if env.existRegisteredDN moDn then .ofRegistered (env.getRegisteredDN moDn)
  else
    match (GlobalSplitMocPath (createMocPath env.oi moDn).2).getLast? with
    | none => .noClass
    | some className =>
      if env.existRegisteredClass className then .ofRegistered (env.getRegisteredClass className) else .unregistered

structure Target where
  moDn : String
  moIfVersion : RegisteredMoInterface
  ap : MoAction
  parameters : List (Nat × NamedAttributeValueContainer)

/-- Up to the translation of the parameters. What ends before is ended with these calls. -/
def findTarget (env : AdminEnv) (request : AdminRequest) (errno : Int) : Except (List AdminCall) Target :=
  match env.parseImmDN request.immDn with
  | none => .error []
  | some (moDn, index) =>
    if index = -1 then
      match findImplementer env moDn with
      | .noClass => .error [.undefined]
      | .unregistered =>
        .error [failedResult s!"OIProxy_handleAdminOperation() : {request.immDn} is not registered"]
      | .null => .error []
      | .found moIfVersion =>
        if env.GetComActionList moDn = [] then
          .error [failedResult "OIProxy_handleAdminOperation() : Fatal error could not find corresponding action"]
        else
          match findAction request.operationId errno (env.GetComActionList moDn) with
          | .erroneous => .error [failedResult "OIProxy_handleAdminOperation() : Erroneous operationId received"]
          | .notFound =>
            .error [failedResult "OIProxy_handleAdminOperation() : Fatal error could not map corresponding action"]
          | .found ap =>
            let translated := translateParameters moIfVersion ap.parameters request.params
            -- what is written behind the array goes over the pointers to its entries, whatever comes then
            if ¬ WrittenInside request.params translated.2 then .error [.undefined]
            else if translated.1 = .ok then .ok ⟨moDn, moIfVersion, ap, translated.2⟩
            else .error
              [failedResult "OIProxy_handleAdminOperation() : Fatal error could not translate to Mo format"]
    else .error [failedResult s!"OIProxy_handleAdminOperation: {request.immDn} is registered as struct attribute"]

def answerAction (env : AdminEnv) (target : Target) (moAction : MoAction) : List AdminCall :=
  if moAction.returnType.type = .void ∧ target.moIfVersion = .managedObject3 then
    [failedResult "OIProxy_handleAdminOperation() : VOID return type not currently supported by MO SPI v3"]
  else if env.commit = .ok then
    match env.action.2 with
    | some container =>
      let converted := convertActionReturnToImmParameters env.translate moAction.returnType
        (target.moIfVersion = .managedObject2) [container]
      let answer :=
        if converted.1 = .ok then .result .ok (.values converted.2)
        else errorResult (mapComCodeToImmCode (.code converted.1))
          s!"OIProxy_handleAdminOperation() : Failed to convert Admin Op Parameters to IMM, rc={returnNumber converted.1}"
      -- the first parameter is looked at, also where there are none
      [.convert converted.1, answer] ++ if converted.2 = none then [.undefined] else []
    | none => [.result .ok (.values none)]
  else [failedResult "OIProxy_handleAdminOperation() : Failed to commit after action() returned MafOk"]

/-- After an error the messages are cleared in the thread context. -/
def clearMessages (t : ThreadContext) : List AdminCall := if t.there then [] else [.undefined]

def runTransaction (env : AdminEnv) (target : Target) (tx : TxHandle) (s : OIProxy) : AdminRun :=
  let called := AdminCall.action target.moDn target.ap.name target.parameters env.action.1
  if env.action.1 = .ok then
    let prepared := s.call .adminOperation tx (.explicitPrepare env.explicitPrepare.toReturn)
    if env.explicitPrepare = .ok then
      let committed := prepared.call .adminOperation tx .commit
      let calls := [called, .explicitPrepare env.explicitPrepare, .commit env.commit]
      match GetComAction (env.GetComActionList target.moDn) target.ap.name with
      | none => ⟨calls ++ [.undefined], committed⟩
      | some moAction => ⟨calls ++ answerAction env target moAction, committed⟩
    else
      let calls := [called, .explicitPrepare env.explicitPrepare]
      match GetErrMsgsFromThContext env.threadContext with
      | .failed => ⟨calls, prepared⟩
      -- the pointer has no value of its own here
      | .untouched => ⟨calls ++ [.undefined], prepared⟩
      | .messages errorStrings =>
        ⟨calls ++ [.result (mapComCodeToImmCode env.explicitPrepare)
          (PrepareErrMsgsForAdmOpResult errorStrings), .abort],
          prepared.call .adminOperation tx .abort⟩
  else
    match GetErrMsgsFromThContext env.threadContext with
    | .failed => ⟨[called], s⟩
    | .untouched =>
      ⟨[called, .result (mapComCodeToImmCode env.action.1) .unwritten, .abort] ++ clearMessages env.threadContext,
        s.call .adminOperation tx .abort⟩
    | .messages errorStrings =>
      ⟨[called, .result (mapComCodeToImmCode env.action.1) (PrepareErrMsgsForAdmOpResult errorStrings), .abort],
        s.call .adminOperation tx .abort⟩

def runAction (env : AdminEnv) (target : Target) (s : OIProxy) : Option AdminRun :=
  match freeCcbId s (s.started + 1) 47 with
  | none => none
  | some ccbId =>
    if !env.getMoIf then
      some ⟨[failedResult "OIProxy_handleAdminOperation() : Fatal error could not get MO I/F for the OI"], s⟩
    else
      match openTransaction .adminOperation ccbId env.openTx s with
      | (none, s) =>
        some ⟨[failedResult "OIProxy_handleAdminOperation: Fatal error could not start transaction"], s⟩
      | (some tx, s) => some (runTransaction env target tx (s.removeCcbTransaction ccbId))

def OIProxy_handleAdminOperation (env : AdminEnv) (request : AdminRequest) (errno : Int) (s : OIProxy) :
    Option AdminRun :=
  match findTarget env request errno with
  | .error calls => some ⟨calls, s⟩
  | .ok target => runAction env target s

end ComSA.OIproxy.Admin
