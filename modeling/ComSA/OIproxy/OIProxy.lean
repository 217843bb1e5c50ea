import ComSA.OIproxy.StructCache

/-!
# The callbacks and their transactions

The callbacks of one CCB share a transaction that the first of them opens. An admin operation and
the update of runtime attributes have one of their own. What is decided before a transaction
is opened is data of the callback.
-/

namespace ComSA.OIproxy

inductive SaAisError where
  | ok
  | invalidParam
  | badOperation
  | failedOperation
  deriving DecidableEq, Repr

inductive Owner where
  | ccb (ccbId : CcbId)
  | adminOperation
  | rtAttrUpdate
  deriving DecidableEq, Repr

inductive TxCall where
  | newTransaction
  | explicitPrepare (ret : MafReturn)
  | commit
  | abort
  deriving DecidableEq, Repr

structure TxEntry where
  owner : Owner
  tx : TxHandle
  call : TxCall
  deriving DecidableEq, Repr

structure OIProxy where
  ccbTxMap : CcbId → Option TxHandle
  ccbApplierError : CcbId → SaAisError
  cache : StructCache
  started : Nat
  txLog : List TxEntry

structure OpenAnswers where
  getInterface : MafReturn
  newTransaction : MafReturn
  isRegistered : MafReturn
  registered : Bool
  join : MafReturn
  deriving DecidableEq, Repr

namespace OIProxy

def initial : OIProxy where
  ccbTxMap := fun _ => none
  ccbApplierError := fun _ => .ok
  cache := StructCache.initial
  started := 0
  txLog := []

def call (owner : Owner) (tx : TxHandle) (txCall : TxCall) (s : OIProxy) : OIProxy :=
  { s with txLog := s.txLog ++ [⟨owner, tx, txCall⟩] }

def newTransaction (owner : Owner) (s : OIProxy) : OIProxy :=
  { s with started := s.started + 1, txLog := s.txLog ++ [⟨owner, s.started, .newTransaction⟩] }

def addNewCcbTransaction (ccbId : CcbId) (tx : TxHandle) (s : OIProxy) : OIProxy :=
  { s with ccbTxMap := Function.update s.ccbTxMap ccbId (some tx) }

def removeCcbTransaction (ccbId : CcbId) (s : OIProxy) : OIProxy :=
  { s with ccbTxMap := Function.update s.ccbTxMap ccbId none }

def setCcbApplierError (ccbId : CcbId) (err : SaAisError) (s : OIProxy) : OIProxy :=
  { s with ccbApplierError := Function.update s.ccbApplierError ccbId err }

def removeCcbApplierError (ccbId : CcbId) (s : OIProxy) : OIProxy := s.setCcbApplierError ccbId .ok

end OIProxy

open OIProxy

/-- The transactional resource is registered in the transaction, or joins it. -/
def OpenAnswers.joined (a : OpenAnswers) : Bool :=
  a.isRegistered = .ok && (a.registered || a.join = .ok)

def openTransaction (owner : Owner) (ccbId : CcbId) (a : OpenAnswers) (s : OIProxy) :
    Option TxHandle × OIProxy :=
  if a.getInterface ≠ .ok then (none, s)
  else
    match s.ccbTxMap ccbId with
    | some tx => (if a.joined then some tx else none, s)
    | none =>
      if a.newTransaction ≠ .ok then (none, s)
      else (if a.joined then some s.started else none,
        (s.newTransaction owner).addNewCcbTransaction ccbId s.started)

def openAnonymousTransaction (owner : Owner) (a : OpenAnswers) (s : OIProxy) : Option TxHandle × OIProxy :=
  if a.getInterface ≠ .ok then (none, s)
  else if a.newTransaction ≠ .ok then (none, s)
  else (if a.joined then some s.started else none, s.newTransaction owner)

/-! ## The main implementer's callbacks of a CCB -/

/-- What is found for an object before the transaction is opened, and the interface after it. -/
structure ObjectAnswers where
  /-- The callback returns before a transaction is opened. -/
  early : Option SaAisError
  openTx : OpenAnswers
  moIf : Option MoIf
  version2 : Bool
  moDn : String
  deriving DecidableEq, Repr

section
variable (answers : Nat → MafReturn) (ccbId : CcbId)

def cacheEnv (tx : TxHandle) : CacheEnv := ⟨fun _ => tx, answers⟩

def onObject (a : ObjectAnswers) (s : OIProxy)
    (rest : TxHandle → MoIf → StructCache → Option (SaAisError × StructCache)) :
    Option (SaAisError × OIProxy) :=
  if s.ccbApplierError ccbId ≠ .ok then some (s.ccbApplierError ccbId, s)
  else
    match a.early with
    | some err => some (err, s)
    | none =>
      match openTransaction (.ccb ccbId) ccbId a.openTx s with
      | (none, s) => some (.invalidParam, s)
      | (some tx, s) =>
        match a.moIf with
        | none => some (.invalidParam, s)
        | some moIf => (rest tx moIf s.cache).map fun (err, cache) => (err, { s with cache := cache })

/-- The loop over the attributes. Where there is none, the modification type is unknown. -/
def setAttributes (tx : TxHandle) (moIf : MoIf) (moDn : String) :
    List (Option (String × AttrValue)) → StructCache → Option (SaAisError × StructCache)
  | [], cache => some (.ok, cache)
  | none :: _, cache => some (.badOperation, cache)
  | some (attrName, value) :: rest, cache =>
    match cache_setMoAttribute (cacheEnv answers tx) ccbId moIf moDn attrName value cache with
    | none => none
    | some (.ok, cache) => setAttributes tx moIf moDn rest cache
    | some (_, cache) => some (.failedOperation, cache)

structure CreateAnswers extends ObjectAnswers where
  parentDn : String
  className : String
  key : Option (String × String)
  /-- The simple attributes that are not the key. `none` where there are attributes and no MOC. -/
  attributes : Option (List (String × MoAttributeValueContainer))
  deriving DecidableEq, Repr

def handleCcbCreateObject (a : CreateAnswers) (s : OIProxy) : Option (SaAisError × OIProxy) :=
  onObject ccbId a.toObjectAnswers s fun tx moIf cache =>
    match a.key with
    | none => some (.invalidParam, cache)
    | some (key, keyValue) =>
      match cache_createMo (cacheEnv answers tx) ccbId moIf a.version2 a.parentDn a.className key keyValue
        cache with
      | none => none
      | some (.ok, cache) =>
        match a.attributes with
        | none => some (.badOperation, cache)
        | some attributes =>
          setAttributes answers ccbId tx moIf a.moDn
            (attributes.map fun (attrName, container) => some (attrName, .simple container)) cache
      | some (_, cache) => some (.badOperation, cache)

def handleCcbDeleteObject (a : ObjectAnswers) (s : OIProxy) : Option (SaAisError × OIProxy) :=
  onObject ccbId a s fun tx moIf cache =>
    match cache_deleteMo (cacheEnv answers tx) ccbId moIf a.version2 a.moDn cache with
    | none => none
    | some (.ok, cache) => some (.ok, cache)
    | some (_, cache) => some (.failedOperation, cache)

structure ModifyAnswers extends ObjectAnswers where
  /-- What is set. The value of a struct attribute that is deleted has no elements. `none` where there
  is no MOC. -/
  attrMods : Option (List (Option (String × AttrValue)))
  deriving DecidableEq, Repr

def handleCcbModification (a : ModifyAnswers) (s : OIProxy) : Option (SaAisError × OIProxy) :=
  onObject ccbId a.toObjectAnswers s fun tx moIf cache =>
    match a.attrMods with
    | none => some (.badOperation, cache)
    | some attrMods => setAttributes answers ccbId tx moIf a.moDn attrMods cache

def handleCcbAbort (s : OIProxy) : Option OIProxy :=
  match s.ccbTxMap ccbId with
  | none => some s
  | some tx =>
    (cache_ccbAbort ccbId s.cache).map fun cache =>
      (({ s with cache := cache } : OIProxy).removeCcbTransaction ccbId).call (.ccb ccbId) tx .abort

def handleCcbApply (s : OIProxy) : OIProxy :=
  match s.ccbTxMap ccbId with
  | none => s
  | some tx => (s.removeCcbTransaction ccbId).call (.ccb ccbId) tx .commit

def handleCcbCompleted (explicitPrepare : MafReturn) (s : OIProxy) : Option (SaAisError × OIProxy) :=
  if s.ccbApplierError ccbId ≠ .ok then some (s.ccbApplierError ccbId, s)
  else
    match s.ccbTxMap ccbId with
    | none => some (.ok, s)
    | some tx =>
      match sendCached (cacheEnv answers tx) ccbId s.cache with
      | none => none
      | some (.ok, cache) =>
        let s := ({ s with cache := cache } : OIProxy).call (.ccb ccbId) tx (.explicitPrepare explicitPrepare)
        if explicitPrepare = .ok then some (.ok, s)
        else
          (cache_ccbAbort ccbId s.cache).map fun cache =>
            (.badOperation, ({ s with cache := cache } : OIProxy).removeCcbTransaction ccbId)
      | some (_, cache) => some (.badOperation, { s with cache := cache })

/-! ## The applier's callbacks -/

structure StructAnswers where
  early : Option SaAisError
  openTx : OpenAnswers
  moIf : Option MoIf
  moDn : String
  ctAttr : String
  /-- `none` where the attribute is not found, or its value cannot be made. -/
  value : Option StructValue
  deriving DecidableEq, Repr

/-- A failure is kept for the callbacks of the main implementer. -/
def setStruct (setError : SaAisError) (a : StructAnswers) (s : OIProxy) : Option (SaAisError × OIProxy) :=
  match a.early with
  | some err => some (err, s)
  | none =>
    match openTransaction (.ccb ccbId) ccbId a.openTx s with
    | (none, s) => some (.invalidParam, s.setCcbApplierError ccbId .invalidParam)
    | (some tx, s) =>
      match a.moIf with
      | none => some (.invalidParam, s.setCcbApplierError ccbId .invalidParam)
      | some moIf =>
        match a.value with
        | none => some (setError, s.setCcbApplierError ccbId setError)
        | some value =>
          match cache_setMoAttribute (cacheEnv answers tx) ccbId moIf a.moDn a.ctAttr (.struct [value]) s.cache with
          | none => none
          | some (.ok, cache) => some (.ok, { s with cache := cache })
          | some (_, cache) =>
            some (setError, ({ s with cache := cache } : OIProxy).setCcbApplierError ccbId setError)

def handleComplexTypeCcbCreateObject (a : StructAnswers) (s : OIProxy) : Option (SaAisError × OIProxy) :=
  setStruct answers ccbId .badOperation a s

def handleComplexTypeCcbModification (a : StructAnswers) (s : OIProxy) : Option (SaAisError × OIProxy) :=
  setStruct answers ccbId .failedOperation a s

def handleComplexTypeCcbAbort (s : OIProxy) : OIProxy := s.removeCcbApplierError ccbId

def handleComplexTypeCcbApply (s : OIProxy) : OIProxy := s.removeCcbApplierError ccbId

end

/-! ## Admin operations and runtime attributes -/

structure AdminAnswers where
  /-- The operation is answered before an id is invented for it. -/
  early : Bool
  moIf : Bool
  openTx : OpenAnswers
  action : MafReturn
  explicitPrepare : MafReturn
  getErrMsgs : MafReturn
  deriving DecidableEq, Repr

def freeCcbId (s : OIProxy) : Nat → CcbId → Option CcbId
  | 0, _ => none
  | fuel + 1, ccbId => if (s.ccbTxMap ccbId).isSome then freeCcbId s fuel (ccbId + 1) else some ccbId

def handleAdminOperation (a : AdminAnswers) (s : OIProxy) : Option OIProxy :=
  if a.early then some s
  else
    match freeCcbId s (s.started + 1) 47 with
    | none => none
    | some ccbId =>
      if !a.moIf then some s
      else
        match openTransaction .adminOperation ccbId a.openTx s with
        | (none, s) => some s
        | (some tx, s) =>
          let s := s.removeCcbTransaction ccbId
          if a.action = .ok then
            let s := s.call .adminOperation tx (.explicitPrepare a.explicitPrepare)
            if a.explicitPrepare = .ok then some (s.call .adminOperation tx .commit)
            else if a.getErrMsgs ≠ .ok then some s
            else some (s.call .adminOperation tx .abort)
          else if a.getErrMsgs ≠ .ok then some s
          else some (s.call .adminOperation tx .abort)

inductive RtOutcome where
  | ok
  | failed
  | noContainer
  deriving DecidableEq, Repr

structure RtAnswers where
  /-- The callback returns before a transaction is opened. -/
  early : Bool
  openTx : OpenAnswers
  moIf : Bool
  classDescription : Bool
  attributes : RtOutcome
  explicitPrepare : MafReturn
  deriving DecidableEq, Repr

def handleRtAttrUpdate (a : RtAnswers) (s : OIProxy) : OIProxy :=
  if a.early then s
  else
    match openAnonymousTransaction .rtAttrUpdate a.openTx s with
    | (none, s) => s
    | (some tx, s) =>
      if !a.moIf then s
      else if !a.classDescription then s
      else
        match a.attributes with
        | .noContainer => s
        | .failed => s.call .rtAttrUpdate tx .abort
        | .ok =>
          let s := s.call .rtAttrUpdate tx (.explicitPrepare a.explicitPrepare)
          if a.explicitPrepare = .ok then s.call .rtAttrUpdate tx .commit else s

/-! ## Callbacks -/

inductive OICallback where
  | createObject (ccbId : CcbId) (a : CreateAnswers)
  | deleteObject (ccbId : CcbId) (a : ObjectAnswers)
  | modification (ccbId : CcbId) (a : ModifyAnswers)
  | completed (ccbId : CcbId) (explicitPrepare : MafReturn)
  | apply (ccbId : CcbId)
  | abort (ccbId : CcbId)
  | structCreate (ccbId : CcbId) (a : StructAnswers)
  | structModification (ccbId : CcbId) (a : StructAnswers)
  | structApply (ccbId : CcbId)
  | structAbort (ccbId : CcbId)
  | adminOperation (a : AdminAnswers)
  | rtAttrUpdate (a : RtAnswers)

/-- The error code where the callback has one, and the state. -/
def OICallback.run (answers : Nat → MafReturn) (s : OIProxy) : OICallback → Option (SaAisError × OIProxy)
  | createObject ccbId a => handleCcbCreateObject answers ccbId a s
  | deleteObject ccbId a => handleCcbDeleteObject answers ccbId a s
  | modification ccbId a => handleCcbModification answers ccbId a s
  | completed ccbId explicitPrepare => handleCcbCompleted answers ccbId explicitPrepare s
  | apply ccbId => some (.ok, handleCcbApply ccbId s)
  | abort ccbId => (handleCcbAbort ccbId s).map fun s => (.ok, s)
  | structCreate ccbId a => handleComplexTypeCcbCreateObject answers ccbId a s
  | structModification ccbId a => handleComplexTypeCcbModification answers ccbId a s
  | structApply ccbId => some (.ok, handleComplexTypeCcbApply ccbId s)
  | structAbort ccbId => some (.ok, handleComplexTypeCcbAbort ccbId s)
  | adminOperation a => (handleAdminOperation a s).map fun s => (.ok, s)
  | rtAttrUpdate a => some (.ok, handleRtAttrUpdate a s)

end ComSA.OIproxy
