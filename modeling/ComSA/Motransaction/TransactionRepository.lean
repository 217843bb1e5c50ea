import ComSA.Lib.Custody
import ComSA.Lib.SortedMap
import ComSA.Motransaction.BadHandle
import ComSA.Motransaction.Resource

/-!
# The handles of the transactions

Each transaction has a context with IMM handles of its own: `OamSATransactionRepository.cc`, `TxContext.cc`, and
the calls of `OamSAImmBridge.cc` with what they do to the handles. What they do to the objects is left open: the
calls of IMM that neither give nor take a handle are given by what IMM is asked `meanwhile`, and by what the cache
of the context reads with two handles of its own.
-/

namespace ComSA.TransactionRepository

open BadHandle (Handle Handles)

inductive SaAisError where
  | ok
  | errTryAgain
  | errFailedOperation
  | errBadHandle
  | errNotExist
  | other
  deriving DecidableEq, Repr

inductive Slot where
  | imm
  | accessor
  | adminOwner
  | ccb
  deriving DecidableEq, Repr

/-- What a cache reads: the description of a class, or the class of an object, for which IMM may answer that the
handle is bad. -/
inductive CacheRead where
  | classDescription
  | classOfObject (badHandle : Bool)
  deriving DecidableEq, Repr

/-- What is asked of IMM about objects, with the handles that are passed, and what comes of it. The flag tells of an
abort for lack of resources, or of an empty CCB. -/
structure Meanwhile where
  passes : List Slot := []
  cacheReads : List CacheRead := []
  ret : MafReturn := .ok
  flag : Bool := false
  deriving DecidableEq

/-! ## The context -/

structure OamSACache where
  myImmHandle : Handle := 0
  myAccessorHandle : Handle := 0
  deriving DecidableEq, Repr

structure TxContext where
  this : Nat
  mCache : OamSACache := {}
  mImmHandle : Handle := 0
  mAccessorHandle : Handle := 0
  mAdminOwnerHandle : Handle := 0
  mCcbHandle : Handle := 0
  mSearchHandleMap : List (Nat × Handle) := []
  immCcbCreated : Bool := false
  isCcbEmpty : Bool := false
  /-- The iterators of the cache, and whether their searches are initialized. -/
  bridgeImmIterList : List (Nat × Bool) := []
  deriving DecidableEq

namespace TxContext

def get (tx : TxContext) : Slot → Handle
  | .imm => tx.mImmHandle
  | .accessor => tx.mAccessorHandle
  | .adminOwner => tx.mAdminOwnerHandle
  | .ccb => tx.mCcbHandle

def set (tx : TxContext) (h : Handle) : Slot → TxContext
  | .imm => { tx with mImmHandle := h }
  | .accessor => { tx with mAccessorHandle := h }
  | .adminOwner => { tx with mAdminOwnerHandle := h }
  | .ccb => { tx with mCcbHandle := h }

end TxContext

/-! ## IMM -/

structure Imm where
  answers : List SaAisError := []
  meanwhile : List Meanwhile := []
  log : List (Dealing Nat Handle) := []
  /-- Handles that nothing refers to any more, and that were not finalized. -/
  lost : List (Nat × Handle) := []
  deriving DecidableEq

namespace Imm

def issued (imm : Imm) : List Handle := (Custody.after imm.log).issued

def finalized (imm : Imm) : List Handle := imm.log.flatMap (Custody.returned 0)

def deal (d : Dealing Nat Handle) (imm : Imm) : Imm := { imm with log := imm.log ++ [d] }

def nextAnswer (imm : Imm) : SaAisError × Imm :=
  match imm.answers with
  | [] => (.ok, imm)
  | a :: rest => (a, { imm with answers := rest })

def nextMeanwhile (imm : Imm) : Meanwhile × Imm :=
  match imm.meanwhile with
  | [] => ({}, imm)
  | m :: rest => (m, { imm with meanwhile := rest })

def finalize (owner : Nat) (h : Handle) (imm : Imm) : SaAisError × Imm := (imm.deal (.returns owner h)).nextAnswer

end Imm

structure World where
  tx : TxContext
  imm : Imm
  deriving DecidableEq

structure Env where
  handles : Handles
  isCCNameLM : Bool := false

namespace World

/-! ## Commands -/

def retried (isCCNameLM : Bool) (err : SaAisError) : Bool :=
  err = .errTryAgain || isCCNameLM && err = .errFailedOperation

def execute (isCCNameLM : Bool) (doExecute : World → SaAisError × World) : Nat → World → SaAisError × World
  | 0, w => doExecute w
  | n + 1, w =>
    match doExecute w with
    | (err, w) => if retried isCCNameLM err then execute isCCNameLM doExecute n w else (err, w)

def mRetries : Nat := 59

def pass (h : Handle) (w : World) : World := { w with imm := w.imm.deal (.uses w.tx.this h) }

def call (slot : Slot) (w : World) : SaAisError × World :=
  let w := w.pass (w.tx.get slot)
  let (err, imm) := w.imm.nextAnswer
  (err, { w with imm })

def finalize (h : Handle) (w : World) : World := { w with imm := (w.imm.finalize w.tx.this h).2 }

section
variable (env : Env)

def acquire (keep : Handle → World → World) (w : World) : SaAisError × World :=
  match w.imm.nextAnswer with
  | (.ok, imm) =>
    let h := env.handles.next imm.issued
    (.ok, keep h { w with imm := imm.deal (.gets w.tx.this h) })
  | (err, imm) => (err, { w with imm })

/-! ## The cache -/

def reInitializeBadHandler (immOmHandle immOmAccessorHandle : Handle) (w : World) : SaAisError × World :=
  let lose (h : Handle) (w : World) : World := { w with imm := { w.imm with lost := w.imm.lost ++ [(w.tx.this, h)] } }
  match acquire env (fun h w => (lose h w).pass h) ((w.finalize immOmAccessorHandle).finalize immOmHandle) with
  | (.ok, w) => acquire env lose w
  | r => r

/-- `GetClassNameFromImm` and `checkObjectExistInImm` of the translator read again with the handle that they have. -/
def cacheRead (w : World) : CacheRead → World
  | .classDescription => if w.tx.mCache.myImmHandle ≠ 0 then w.pass w.tx.mCache.myImmHandle else w
  | .classOfObject badHandle =>
    if w.tx.mCache.myImmHandle ≠ 0 ∧ w.tx.mCache.myAccessorHandle ≠ 0 then
      let w := w.pass w.tx.mCache.myAccessorHandle
      if badHandle then
        match reInitializeBadHandler env w.tx.mCache.myImmHandle w.tx.mCache.myAccessorHandle w with
        | (.ok, w) => w.pass w.tx.mCache.myAccessorHandle
        | (_, w) => w
      else w
    else w

def ask (w : World) : Meanwhile × World :=
  let (m, imm) := w.imm.nextMeanwhile
  (m, m.cacheReads.foldl (cacheRead env) (m.passes.foldl (fun w slot => w.pass (w.tx.get slot)) { w with imm }))

def newCache (w : World) : World :=
  match acquire env (fun h w => { w with tx := { w.tx with mCache := ⟨h, 0⟩ } }) w with
  | (.ok, w) =>
    (acquire env (fun h w => { w with tx := { w.tx with mCache := { w.tx.mCache with myAccessorHandle := h } } })
      (w.pass w.tx.mCache.myImmHandle)).2
  | (_, w) => w

def destroyCache (w : World) : World :=
  if w.tx.mCache.myImmHandle = 0 then w
  else (w.finalize w.tx.mCache.myAccessorHandle).finalize w.tx.mCache.myImmHandle

/-! ## The handles of the context -/

def store (slot : Slot) (h : Handle) (w : World) : World :=
  { tx := w.tx.set h slot
    imm := if w.tx.get slot = 0 then w.imm
      else { w.imm with lost := w.imm.lost ++ [(w.tx.this, w.tx.get slot)] } }

def immCmdOmInit (w : World) : SaAisError × World :=
  execute env.isCCNameLM (acquire env (store .imm)) (mRetries - 1) w

def immCmdInit (parent slot : Slot) (w : World) : SaAisError × World :=
  execute env.isCCNameLM (fun w => acquire env (store slot) (w.pass (w.tx.get parent))) (mRetries - 1) w

def immCmdOmAccessorInit (w : World) : SaAisError × World := immCmdInit env .imm .accessor w

def immCmdOmAdminOwnerInit (w : World) : SaAisError × World := immCmdInit env .imm .adminOwner w

def ccbInit (w : World) : SaAisError × World := immCmdInit env .adminOwner .ccb w

def ccbCall (w : World) : SaAisError × World := execute env.isCCNameLM (call .ccb) (mRetries - 1) w

/-- The handle is forgotten whatever IMM answers. -/
def ccbFinalize (w : World) : SaAisError × World :=
  execute env.isCCNameLM (fun w =>
    let (err, imm) := w.imm.finalize w.tx.this w.tx.mCcbHandle
    (err, { tx := { w.tx with mCcbHandle := 0 }, imm })) (mRetries - 1) w

/-! ## Searches -/

def addSearchHandle (iter : Nat) (h : Handle) (w : World) : World :=
  match SortedMap.get? iter w.tx.mSearchHandleMap with
  | none => { w with tx := { w.tx with mSearchHandleMap := SortedMap.put iter h w.tx.mSearchHandleMap } }
  | some _ => { w with imm := { w.imm with lost := w.imm.lost ++ [(w.tx.this, h)] } }

def deleteSearchHandle (iter : Nat) (w : World) : World :=
  match SortedMap.get? iter w.tx.mSearchHandleMap with
  | none => w
  | some h =>
    { tx := { w.tx with mSearchHandleMap := SortedMap.erase iter w.tx.mSearchHandleMap }
      imm := (w.imm.finalize w.tx.this h).2 }

def getSearchHandle (iter : Nat) (tx : TxContext) : Handle := (SortedMap.get? iter tx.mSearchHandleMap).getD 0

def immCmdOmKeySearchInit (iter : Nat) (w : World) : SaAisError × World :=
  acquire env (addSearchHandle iter) (w.pass w.tx.mImmHandle)

def immCmdOmSearchNext (iter : Nat) (w : World) : SaAisError × World :=
  let w := w.pass (getSearchHandle iter w.tx)
  let (err, imm) := w.imm.nextAnswer
  (err, { w with imm })

def setImmSearchInitialized (iter : Nat) (initialized : Bool) (w : World) : World :=
  { w with tx := { w.tx with
      bridgeImmIterList := w.tx.bridgeImmIterList.map fun x => if x.1 = iter then (iter, initialized) else x } }

def getImmMoIterator (iter : Nat) (w : World) : MafReturn × World :=
  let (m, w) := w.ask env
  let w := { w with tx := { w.tx with bridgeImmIterList := w.tx.bridgeImmIterList ++ [(iter, false)] } }
  match immCmdOmKeySearchInit env iter w with
  | (.ok, w) => (.ok, setImmSearchInitialized iter true w)
  | (.errNotExist, w) => (m.ret, w)
  | (_, w) => (.failure, w)

/-- The search goes on while it finds objects that the cache has deleted. A bad handle is replaced. -/
def searchLoop (iter : Nat) : Nat → Nat → Nat → World → MafReturn × World
  | 0, _, _, w => (.failure, w)
  | fuel + 1, retries, deleted, w =>
    match immCmdOmSearchNext iter w with
    | (.ok, w) => if deleted = 0 then (.ok, w) else searchLoop iter fuel retries (deleted - 1) w
    | (.errBadHandle, w) =>
      if retries = 0 then (.failure, w)
      else
        let w := setImmSearchInitialized iter false (deleteSearchHandle iter w)
        match immCmdOmKeySearchInit env iter w with
        | (.ok, w) => searchLoop iter fuel (retries - 1) deleted (setImmSearchInitialized iter true w)
        | (.errNotExist, w) => (.ok, w)
        | (_, w) => (.failure, w)
    | (.errNotExist, w) => (.ok, w)
    | (_, w) => (.failure, w)

/-- The cache may have the next object. The search in IMM finds some that are deleted before it finds another one. -/
def getImmNextMo (iter : Nat) (inCache : Bool) (deleted : Nat) (w : World) : MafReturn × World :=
  if inCache then (.ok, w)
  else if (iter, true) ∈ w.tx.bridgeImmIterList then searchLoop env iter (deleted + 4) 3 deleted w
  else (.ok, w)

def finalizeImmMoIterator (iter : Nat) (w : World) : MafReturn × World :=
  if iter ∈ w.tx.bridgeImmIterList.map Prod.fst then
    let w := deleteSearchHandle iter w
    (.ok, { w with tx := { w.tx with
      bridgeImmIterList := w.tx.bridgeImmIterList.filter fun x => x.1 ≠ iter } })
  else (.failure, w)

/-! ## The transactional resource -/

def oamSAPrepare (w : World) : MafReturn × World :=
  let w := { w with tx := { w.tx with isCcbEmpty := false } }
  if w.tx.immCcbCreated then (.ok, w)
  else
    match ccbInit env w with
    | (.ok, w) =>
      let (m, w) := ask env { w with tx := { w.tx with immCcbCreated := true } }
      if m.ret = .ok then (.ok, { w with tx := { w.tx with isCcbEmpty := m.flag } }) else (m.ret, w)
    | (_, w) => (.failure, w)

def closeCcb (w : World) : World := { w with tx := { w.tx with immCcbCreated := false } }

/-- `releaseAdminOwnerForDn` and `getAndForwardErrorStrings`. -/
def report (w : World) : World := (ask env (ask env w).2).2

def handleCcbOnFailedOperation (w : World) : Bool × World :=
  let (m, w) := w.ask env
  let w := if m.flag then (ccbFinalize env w).2 else w
  (m.flag, (w.ask env).2)

def handlePrepareOnImmAbort : Nat → World → MafReturn × World
  | 0, w => (.failure, (w.ask env).2)
  | n + 1, w =>
    match oamSAPrepare env (closeCcb ((ccbFinalize env w).2.ask env).2) with
    | (.commitFailed, w) => handlePrepareOnImmAbort n w
    | r => r

def prepareOnImmAbort (w : World) : MafReturn × World :=
  match oamSAPrepare env w with
  | (.commitFailed, w) => handlePrepareOnImmAbort env immAbortRetriesCount w
  | r => r

/-- After a failure the CCB is aborted, and that may fail too. -/
def abortCcb (w : World) : World :=
  match ccbCall env w with
  | (.ok, w) => (w.ask env).2
  | (_, w) => report env w

/-- The loop after `ccbValidate` has answered. The flag is the result of the validation. -/
def validateLoop : Nat → SaAisError → World → MafReturn × Bool × World
  | _, .ok, w => (.ok, true, w)
  | n + 1, .errFailedOperation, w =>
    match handleCcbOnFailedOperation env w with
    | (false, w) => (.ok, false, w)
    | (true, w) =>
      match prepareOnImmAbort env (closeCcb w) with
      | (.ok, w) =>
        match ccbCall env w with
        | (err, w) => validateLoop n err w
      | (ret, w) => (ret, false, abortCcb env (w.ask env).2)
  | _, _, w => (.ok, false, report env w)

def abortCreated (w : World) : Bool × World :=
  if w.tx.immCcbCreated then
    match ccbCall env (closeCcb w) with
    | (.ok, w) => (true, w)
    | (err, w) => (err = .errBadHandle, (w.ask env).2)
  else (true, w)

def oamSAValidate (w : World) : MafReturn × Bool × World :=
  match abortCreated env w with
  | (false, w) => (.failure, true, w)
  | (true, w) =>
    match prepareOnImmAbort env w with
    | (.ok, w) =>
      if w.tx.isCcbEmpty then (.ok, true, w)
      else
        match ccbCall env w with
        | (err, w) => validateLoop env immAbortRetriesCount err w
    | (ret, w) => (ret, true, abortCcb env w)

def commitLoop : Nat → SaAisError → World → MafReturn × World
  | _, .ok, w => (.ok, (w.ask env).2)
  | n + 1, .errFailedOperation, w =>
    match handleCcbOnFailedOperation env w with
    | (false, w) => (.commitFailed, w)
    | (true, w) =>
      match oamSAValidate env w with
      | (.ok, true, w) =>
        match ccbCall env (closeCcb w) with
        | (err, w) => commitLoop n err w
      | (_, _, w) => (.commitFailed, report env w)
  | _, _, w => (.commitFailed, report env w)

def oamSACommit (w : World) : MafReturn × World :=
  match ccbCall env (closeCcb w) with
  | (err, w) => commitLoop env immAbortRetriesCount err w

/-! ## Contexts that come and go -/

def finalizeSome (h : Handle) (w : World) : World :=
  if h = 0 then w else w.finalize h

def destroy (w : World) : Imm :=
  let w := finalizeSome w.tx.mCcbHandle w
  let w := w.tx.mSearchHandleMap.foldl (fun w x => w.finalize x.2) w
  let w := finalizeSome w.tx.mAccessorHandle w
  let w := finalizeSome w.tx.mAdminOwnerHandle w
  (destroyCache (finalizeSome w.tx.mImmHandle w)).imm

def andThen (r : SaAisError × World) (next : World → SaAisError × World) : SaAisError × World :=
  if r.1 = .ok then next r.2 else r

def newTxContext (this : Nat) (imm : Imm) : Option TxContext × Imm :=
  let r := andThen (andThen (immCmdOmInit env (newCache env ⟨{ this := this }, imm⟩)) (immCmdOmAccessorInit env))
    (immCmdOmAdminOwnerInit env)
  if r.1 = .ok then (some r.2.tx, r.2.imm) else (none, r.2.destroy)

end

end World

/-! ## The repository -/

structure Repository where
  theContextMap : List (Nat × TxContext) := []
  imm : Imm := {}
  contexts : Nat := 0
  deriving DecidableEq

inductive Call where
  | join (txHandle : Nat)
  | access (txHandle : Nat)
  | getImmMoIterator (txHandle iter : Nat)
  | getImmNextMo (txHandle iter : Nat) (inCache : Bool) (deleted : Nat)
  | finalizeImmMoIterator (txHandle iter : Nat)
  | prepare (txHandle : Nat)
  | validate (txHandle : Nat)
  | commit (txHandle : Nat)
  | abort (txHandle : Nat)
  | finish (txHandle : Nat)
  | clearContextMap
  deriving DecidableEq, Repr

namespace Repository

variable (env : Env)

def getTxContext (txHandle : Nat) (r : Repository) : Option TxContext := SortedMap.get? txHandle r.theContextMap

def onContext (txHandle : Nat) (f : World → World) (r : Repository) : Repository :=
  match r.getTxContext txHandle with
  | none => r
  | some tx =>
    let w := f ⟨tx, r.imm⟩
    { r with theContextMap := SortedMap.put txHandle w.tx r.theContextMap, imm := w.imm }

def delTxContext (txHandle : Nat) (r : Repository) : Repository :=
  match r.getTxContext txHandle with
  | none => r
  | some tx =>
    { r with theContextMap := SortedMap.erase txHandle r.theContextMap, imm := World.destroy ⟨tx, r.imm⟩ }

def oamSAJoin (txHandle : Nat) (r : Repository) : Repository :=
  match World.newTxContext env r.contexts r.imm with
  | (none, imm) => { r with imm, contexts := r.contexts + 1 }
  | (some tx, imm) =>
    let r := delTxContext txHandle { r with imm, contexts := r.contexts + 1 }
    { r with theContextMap := SortedMap.put txHandle tx r.theContextMap }

def oamSAFinish (txHandle : Nat) (r : Repository) : Repository :=
  delTxContext txHandle
    (r.onContext txHandle fun w => if w.tx.mCcbHandle ≠ 0 then (World.ccbFinalize env w).2 else w)

def clearContextMap (r : Repository) : Repository :=
  { r with theContextMap := [], imm := r.theContextMap.foldl (fun imm x => World.destroy ⟨x.2, imm⟩) r.imm }

def step (r : Repository) : Call → Repository
  | .join txHandle => r.oamSAJoin env txHandle
  | .access txHandle => r.onContext txHandle fun w => (w.ask env).2
  | .getImmMoIterator txHandle iter => r.onContext txHandle fun w => (w.getImmMoIterator env iter).2
  | .getImmNextMo txHandle iter inCache deleted =>
    r.onContext txHandle fun w => (w.getImmNextMo env iter inCache deleted).2
  | .finalizeImmMoIterator txHandle iter => r.onContext txHandle fun w => (w.finalizeImmMoIterator iter).2
  | .prepare txHandle => r.onContext txHandle fun w => (w.oamSAPrepare env).2
  | .validate txHandle => r.onContext txHandle fun w => (w.oamSAValidate env).2.2
  | .commit txHandle => r.onContext txHandle fun w => (w.oamSACommit env).2
  | .abort _ => r
  | .finish txHandle => r.oamSAFinish env txHandle
  | .clearContextMap => r.clearContextMap

/-- A transaction has no CCB any more when it gets another one. An iterator is a new block. -/
def Tidy (r : Repository) : Call → Prop
  | .prepare txHandle => ∀ tx ∈ r.getTxContext txHandle, tx.immCcbCreated = true ∨ tx.mCcbHandle = 0
  | .validate txHandle => ∀ tx ∈ r.getTxContext txHandle, tx.mCcbHandle = 0
  | .getImmMoIterator txHandle iter =>
    ∀ tx ∈ r.getTxContext txHandle, iter ∉ tx.bridgeImmIterList.map Prod.fst
  | _ => True

instance (r : Repository) : (c : Call) → Decidable (r.Tidy c)
  | .prepare txHandle =>
    inferInstanceAs (Decidable (∀ tx ∈ r.getTxContext txHandle, tx.immCcbCreated = true ∨ tx.mCcbHandle = 0))
  | .validate txHandle => inferInstanceAs (Decidable (∀ tx ∈ r.getTxContext txHandle, tx.mCcbHandle = 0))
  | .getImmMoIterator txHandle iter =>
    inferInstanceAs (Decidable (∀ tx ∈ r.getTxContext txHandle, iter ∉ tx.bridgeImmIterList.map Prod.fst))
  | .join _ | .access _ | .getImmNextMo _ _ _ _ | .finalizeImmMoIterator _ _ | .commit _ | .abort _ | .finish _
  | .clearContextMap => .isTrue trivial

end Repository

end ComSA.TransactionRepository
