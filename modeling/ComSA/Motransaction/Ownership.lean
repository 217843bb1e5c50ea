import ComSA.Motransaction.StructCalls

/-!
# Administrative ownership

IMM lets a transaction change an object only while it owns it. The transaction keeps a
record of the names it has taken, with their scopes. It takes them when a call is made
or when it is prepared, depending on a flag, and gives them back when the operations
have been applied or have failed.
-/

namespace ComSA

open DeletedObjects ModifiedObjects

inductive ImmScope where
  | one
  | subtree
  deriving DecidableEq, Repr

def ImmScope.toNat : ImmScope → Nat
  | one => 1
  | subtree => 3

/-- What IMM answers when it is asked to do something. An object that somebody else owns is tried
again and in the end refused (`exist`), unless the owner was left over from an earlier transaction: it
is cleared, and taking the object again succeeds or not (`cleared`). A failed operation may have a
lack of resources as its reason. -/
inductive ImmAnswer where
  | ok
  | exist
  | cleared (again : Bool)
  | failedOperation (resourceAbort : Bool)
  | badHandle
  | error
  deriving DecidableEq, Repr

inductive LockError where
  | ok
  | notExist
  | exist
  | error
  deriving DecidableEq, Repr

structure TxEnv extends BridgeEnv where
  immExists : String → Bool
  lockMoForConfigChange : Bool

/-- An operation with the objects that were owned when it was issued, and those that were created
in its CCB before. IMM makes the owner of a CCB the owner of what is created in it. -/
structure Issued where
  op : CcbOp
  owned : List String → Bool
  inCcb : List (List String)

/-- `TxContext`, and next to it what IMM has recorded and will answer. -/
structure TxState where
  cache : Cache := {}
  finalModified : List CcbOp := []
  adminOwners : List (String × ImmScope) := []
  ccbCreated : Bool := false
  ccbDeleteFailed : Bool := false
  isCcbEmpty : Bool := false
  owned : List String → Bool := fun _ => false
  inCcb : List (List String) := []
  log : List Issued := []
  answers : List ImmAnswer := []
  /-- Ownership was given back, or the operations were applied, earlier in the transaction. -/
  released : Bool := false
  applied : Bool := false

instance (tr : Translator) (p q : List String) : Decidable (ImmBelow tr p q) :=
  decidable_of_iff (p <+: q ∧ ∀ r ∈ q.inits, p <+: r → r ≠ p → tr.isImmRoot r = false) <| by
    simp only [ImmBelow, List.mem_inits]
    exact and_congr_right fun _ => forall_congr' fun _ =>
      ⟨fun h hpr hne hrq => h hrq hpr hne, fun h hrq hpr hne => h hpr hne hrq⟩

def InScope (tr : Translator) (name : String) : ImmScope → List String → Prop
  | .one, q => tr.mo2ImmDn q = name
  | .subtree, q => ∃ p ∈ q.inits, tr.mo2ImmDn p = name ∧ ImmBelow tr p q

instance (tr : Translator) (name : String) (scope : ImmScope) (q : List String) :
    Decidable (InScope tr name scope q) := by
  cases scope <;> unfold InScope <;> infer_instance

namespace TxState

/-! ## The record of the transaction -/

def isAdminOwnerFor (fdn : String) (scope : ImmScope) (w : TxState) : Bool :=
  match SortedMap.get? fdn w.adminOwners with
  | some s => scope.toNat ≤ s.toNat
  | none => false

def addAdminOwnerFor (fdn : String) (scope : ImmScope) (w : TxState) : TxState :=
  { w with adminOwners := SortedMap.put fdn scope w.adminOwners }

def removeAdminOwnerFor (fdn : String) (scope : ImmScope) (w : TxState) : TxState :=
  if w.isAdminOwnerFor fdn scope then { w with adminOwners := SortedMap.erase fdn w.adminOwners }
  else w

/-! ## What IMM does -/

def nextAnswer (w : TxState) : ImmAnswer × TxState :=
  match w.answers with
  | [] => (.ok, w)
  | a :: rest => (a, { w with answers := rest })

def own (tr : Translator) (name : String) (scope : ImmScope) (w : TxState) : TxState :=
  { w with owned := fun q => decide (InScope tr name scope q) || w.owned q }

def disown (tr : Translator) (name : String) (scope : ImmScope) (w : TxState) : TxState :=
  { w with owned := fun q => !decide (InScope tr name scope q) && w.owned q }

end TxState

open TxState

variable (env : TxEnv)

/-! ## Taking and giving back -/

def checkSetAdminOwner (dn : String) (scope : ImmScope) (w : TxState) : LockError × TxState :=
  if dn = "" then (.ok, w)
  else if w.isAdminOwnerFor dn scope then (.ok, w)
  else if !env.immExists dn then (.notExist, w)
  else
    match w.nextAnswer with
    | (.ok, w) => (.ok, (w.own env.tr dn scope).addAdminOwnerFor dn scope)
    | (.cleared true, w) => (.ok, (w.own env.tr dn scope).addAdminOwnerFor dn scope)
    | (.cleared false, w) => (.error, w.disown env.tr dn scope)
    | (.exist, w) => (.exist, w)
    | (_, w) => (.error, w)

def lockDn (dn : String) (scope : ImmScope) (w : TxState) : MafReturn × TxState :=
  match checkSetAdminOwner env dn scope w with
  | (.ok, w) => (.ok, w)
  | (.notExist, w) => (.ok, w)
  | (.exist, w) => (.objectLocked, w)
  | (.error, w) => (.failure, w)

def releaseAdminOwner (dn : String) (scope : ImmScope) (w : TxState) : TxState :=
  if dn = "" then w
  else if w.isAdminOwnerFor dn scope then
    match w.nextAnswer with
    | (.ok, w) => (w.disown env.tr dn scope).removeAdminOwnerFor dn scope
    | (_, w) => w
  else w

/-! ## The calls -/

/-- Takes an object at the call, if that is when objects are taken. -/
def lockForCall (dn : String) (scope : ImmScope) (w : TxState) : MafReturn × TxState :=
  if env.lockMoForConfigChange && !w.isAdminOwnerFor dn scope then lockDn env dn scope w else (.ok, w)

/-- `unLockDnOnFailure`, where the call has taken the object itself. -/
def unLockForCall (isAdminOwner : Bool) (dn : String) (scope : ImmScope) (w : TxState) : TxState :=
  if env.lockMoForConfigChange && !isAdminOwner then releaseAdminOwner env dn scope w else w

namespace TxState

def setImmMoAttribute (dn : List String) (attributeName : String) (v : MoAttributeValueContainer)
    (w : TxState) : MafReturn × TxState :=
  if !env.tr.isDnListValid dn attributeName then (.failure, w)
  else
    let immDn := env.tr.mo2ImmDn dn
    match lockForCall env immDn .one w with
    | (.ok, w₁) =>
      match ComSA.setImmMoAttribute env.tr dn attributeName v w₁.cache with
      | (.ok, c) => (.ok, { w₁ with cache := c })
      | (e, c) => (e, unLockForCall env (w.isAdminOwnerFor immDn .one) immDn .one
          { w₁ with cache := c })
    | r => r

def setInitialAttributes (dn : List String) :
    List (String × MoAttributeValueContainer) → MafReturn → TxState → MafReturn × TxState
  | [], ret, w => (ret, w)
  | (name, v) :: rest, ret, w =>
    if name ∈ env.tr.comAttributeList dn then
      match setImmMoAttribute env dn name v w with
      | (.ok, w) => setInitialAttributes dn rest ret w
      | (e, w) => setInitialAttributes dn rest e w
    else setInitialAttributes dn rest ret w

def createImmMo (m : CreateCall) (w : TxState) : MafReturn × TxState :=
  if !m.keyAttributeValue.toList.all isGraph then (.invalidArgument, w)
  else if !env.tr.isDnListValid m.parent m.className then (.failure, w)
  else
    let immParentName := env.tr.mo2ImmDn m.parent
    match lockForCall env immParentName .one w with
    | (.ok, w₁) =>
      match setInitialAttributes env m.dn m.initialAttributes .ok
        { w₁ with cache := recordCreation env.tr m w₁.cache } with
      | (.ok, w₂) => (.ok, w₂)
      | (e, w₂) => (e, unLockForCall env (w.isAdminOwnerFor immParentName .one) immParentName .one w₂)
    | r => r

/-- Nothing fails after the object was taken, so it is never given back here. -/
def deleteImmMo (dn : List String) (w : TxState) : Option (MafReturn × TxState) :=
  if !env.tr.isDnListValid dn "" then some (.failure, w)
  else
    match lockForCall env (env.tr.mo2ImmDn dn) .subtree w with
    | (.ok, w) =>
      (ComSA.deleteImmMo env.tr dn w.cache).map fun r => (r.1, { w with cache := r.2 })
    | r => some r

def runLocked (w : TxState) : SessionCall → Option (MafReturn × TxState)
  | .create m => some (createImmMo env m w)
  | .delete dn => deleteImmMo env dn.parts w
  | .set dn attributeName v => some (setImmMoAttribute env dn.parts attributeName v w)
  | .update dn immName attributeName v =>
    match w.cache.updateObjectAttribute dn.parts immName attributeName v with
    | (true, c) => some (.ok, { w with cache := c })
    | (false, c) => some (.failure, { w with cache := c })

def answeredLocked (w : TxState) (call : SessionCall) : Option (MafReturn × TxState) :=
  (runLocked env w call).map fun r => (call.answer r.1, r.2)

end TxState

/-! ## The calls with structs -/

namespace LockedBridge

/-- What a call that fails has taken itself is given back. -/
def unLockOnFailure (isAdminOwner : Bool) (dn : String) (r : MafReturn × TxState) : MafReturn × TxState :=
  if r.1 = .ok then r else (r.1, unLockForCall env isAdminOwner dn .one r.2)

def writeStructToImm (dn attributeName : String) (attributeValue : List StructValue) (w : TxState) :
    Option (MafReturn × TxState) :=
  let write (structRef : List String) :=
    untilFailure .ok (answeredLocked env) (structCalls env.toStructEnv dn attributeName attributeValue structRef) w
  match getImmMoAttributeSimple env.toStructEnv (splitDn dn) attributeName .string w.cache with
  | (.ok, some structRef) => write (moRefs structRef)
  | (.notExist, _) => write []
  | (ret, _) => some (ret, w)

def setImmMoAttribute (dn attributeName : String) (v : AttributeValue) (w : TxState) :
    Option (MafReturn × TxState) :=
  match v with
  | .simple v => some (TxState.setImmMoAttribute env (splitDn dn) attributeName v w)
  | .struct values =>
    if !env.tr.isDnListValid (splitDn dn) attributeName then some (.failure, w)
    else
      let immDn := env.tr.mo2ImmDn (splitDn dn)
      match lockForCall env immDn .one w with
      | (.ok, w₁) =>
        (if w₁.cache.isDeleted (splitDn dn) then some (.failure, w₁)
          else writeStructToImm env dn attributeName values w₁).map
          (unLockOnFailure env (w.isAdminOwnerFor immDn .one) immDn)
      | r => some r

def setInitialAttributes (dn : String) :
    List (String × AttributeValue) → MafReturn → TxState → Option (MafReturn × TxState)
  | [], ret, w => some (ret, w)
  | (name, v) :: rest, ret, w =>
    if name ∈ env.tr.comAttributeList (splitDn dn) then
      (setImmMoAttribute env dn name v w).bind fun r =>
        setInitialAttributes dn rest (if r.1 = .ok then ret else r.1) r.2
    else setInitialAttributes dn rest ret w

def createImmMo (m : CreateMoCall) (w : TxState) : Option (MafReturn × TxState) :=
  match TxState.createImmMo env m.bare w with
  | (.ok, w₁) =>
    let immParentName := env.tr.mo2ImmDn m.parent
    ((untilFailure .ok (runLocked env) (firstInstanceCalls m (Bridge.structAttributes env.toBridgeEnv m)) w₁).bind
      fun r => if r.1 = .ok then setInitialAttributes env (joinDn m.dn) m.initialAttributes .ok r.2 else some r).map
      (unLockOnFailure env (w.isAdminOwnerFor immParentName .one) immParentName)
  | r => some r

end LockedBridge

end ComSA
