import ComSA.Motransaction.Ownership

/-!
# The transactional resource

Preparing, validating and committing a transaction, with the repetitions when IMM lacks
resources. Where these happen, ownership is given back before the operations are issued
again.
-/

namespace ComSA

open DeletedObjects ModifiedObjects TxState

def immAbortRetriesCount : Nat := 60

namespace CcbOp

def ownerName : CcbOp → String
  | objectCreate parentName _ _ _ => parentName
  | objectDelete objectName => objectName
  | modify objectName _ => objectName

def ownerScope : CcbOp → ImmScope
  | objectCreate .. => .one
  | objectDelete _ => .subtree
  | modify .. => .one

def created : CcbOp → List (List String)
  | objectCreate _ _ name _ => [name]
  | _ => []

def isDelete : CcbOp → Bool
  | objectDelete _ => true
  | _ => false

end CcbOp

variable (env : TxEnv)

/-! ## Giving ownership back -/

/-- A deleted object is given back in IMM only when deleting has failed. -/
def releaseDeleted (w : TxState) (objectName : String) : TxState :=
  if objectName = "" then w
  else if w.ccbDeleteFailed then releaseAdminOwner env objectName .subtree w
  else if w.isAdminOwnerFor objectName .subtree then w.removeAdminOwnerFor objectName .subtree
  else w

def releaseNames (names : List String) (w : TxState) : TxState :=
  names.foldl (fun w name => releaseAdminOwner env name .one w) w

def releaseAdminOwnerForDn (w : TxState) : TxState :=
  let creObj := getCreatedData w.cache.modified
  let delObj := getDeletedData w.cache.deleted
  let w := releaseNames env (creObj.reverse.map fun x => x.immParentName env.tr) w
  let w := delObj.foldl (releaseDeleted env) w
  let w := releaseNames env (w.finalModified.map CcbOp.ownerName) w
  { w with finalModified := [], released := true }

/-! ## Preparing -/

/-- `ccbObjectCreate`, `ccbObjectDelete` and `ccbModify`. -/
def issue (op : CcbOp) (w : TxState) : MafReturn × TxState :=
  let w : TxState := { w with log := w.log ++ [⟨op, w.owned, w.inCcb⟩] }
  match w.nextAnswer with
  | (.ok, w) => (.ok, { w with inCcb := op.created ++ w.inCcb })
  | (a, w) =>
    (if a = .failedOperation true then .commitFailed else .failure,
      if op.isDelete then { w with ccbDeleteFailed := true } else w)

def onOk (r : MafReturn × TxState) (next : TxState → MafReturn × TxState) : MafReturn × TxState :=
  if r.1 = .ok then next r.2 else r

/-- Issues operations one after the other, each after its object was taken if that is when objects are
taken. -/
def issueAll : List CcbOp → TxState → MafReturn × TxState
  | [], w => (.ok, w)
  | op :: rest, w =>
    onOk (if env.lockMoForConfigChange then (.ok, w) else lockDn env op.ownerName op.ownerScope w)
      fun w => onOk (issue op w) fun w => issueAll rest w

def oamSAPrepare (w : TxState) : MafReturn × TxState :=
  let w := { w with finalModified := [], isCcbEmpty := false }
  if w.ccbCreated then (.ok, w)
  else
    match w.nextAnswer with
    | (.ok, w) =>
      let creObj := getCreatedData w.cache.modified
      let delObj := getDeletedData w.cache.deleted
      onOk (issueAll env (creObj.reverse.map (createOp env.tr)) { w with
        ccbCreated := true, inCcb := [], finalModified := prepareListOfModifiedObjects creObj }) fun w =>
      onOk (issueAll env (delObj.map .objectDelete) { w with ccbDeleteFailed := false }) fun w =>
      let modObj := w.finalModified ++ (getModifiedData w.cache.modified).map modifyOp
      onOk (issueAll env modObj { w with finalModified := modObj }) fun w =>
      (.ok, { w with isCcbEmpty := creObj.isEmpty && delObj.isEmpty && modObj.isEmpty })
    | (_, w) => (.failure, w)

/-! ## Trying again -/

def handleCcbOnFailedOperation (immResAbort : Bool) (w : TxState) : Bool × TxState :=
  (immResAbort, releaseAdminOwnerForDn env w)

def handlePrepareOnImmAbort : Nat → TxState → MafReturn × TxState
  | 0, w => (.failure, w)
  | n + 1, w =>
    match oamSAPrepare env { releaseAdminOwnerForDn env w with ccbCreated := false } with
    | (.commitFailed, w) => handlePrepareOnImmAbort n w
    | r => r

def prepareOnImmAbort (w : TxState) : MafReturn × TxState :=
  match oamSAPrepare env w with
  | (.commitFailed, w) => handlePrepareOnImmAbort env immAbortRetriesCount w
  | r => r

/-! ## Validating -/

/-- The loop after `ccbValidate` has answered. The flag is the result of the validation. -/
def validateLoop : Nat → ImmAnswer → TxState → MafReturn × Bool × TxState
  | _, .ok, w => (.ok, true, w)
  | n + 1, .failedOperation immResAbort, w =>
    match handleCcbOnFailedOperation env immResAbort w with
    | (false, w) => (.ok, false, w)
    | (true, w) =>
      match prepareOnImmAbort env { w with ccbCreated := false } with
      | (.ok, w) => let (a, w) := w.nextAnswer; validateLoop n a w
      | (ret, w) => (ret, false, releaseAdminOwnerForDn env w)
  | _, _, w => (.ok, false, releaseAdminOwnerForDn env w)

def abortCcb (w : TxState) : Bool × TxState :=
  if w.ccbCreated then
    let (a, w) := { w with ccbCreated := false }.nextAnswer
    (a = .ok || a = .badHandle, w)
  else (true, w)

def oamSAValidate (w : TxState) : MafReturn × Bool × TxState :=
  match abortCcb w with
  | (false, w) => (.failure, true, w)
  | (true, w) =>
    match prepareOnImmAbort env w with
    | (.ok, w) =>
      if w.isCcbEmpty then (.ok, true, w)
      else let (a, w) := w.nextAnswer; validateLoop env immAbortRetriesCount a w
    | (ret, w) => (ret, true, releaseAdminOwnerForDn env w)

/-! ## Committing -/

def commitLoop : Nat → ImmAnswer → TxState → MafReturn × TxState
  | _, .ok, w => (.ok, { releaseAdminOwnerForDn env w with applied := true })
  | n + 1, .failedOperation immResAbort, w =>
    match handleCcbOnFailedOperation env immResAbort w with
    | (false, w) => (.commitFailed, w)
    | (true, w) =>
      match oamSAValidate env w with
      | (.ok, true, w) =>
        let (a, w) := { w with ccbCreated := false }.nextAnswer
        commitLoop n a w
      | (_, _, w) => (.commitFailed, releaseAdminOwnerForDn env w)
  | _, _, w => (.commitFailed, releaseAdminOwnerForDn env w)

def oamSACommit (w : TxState) : MafReturn × TxState :=
  let (a, w) := { w with ccbCreated := false }.nextAnswer
  commitLoop env immAbortRetriesCount a w

end ComSA
