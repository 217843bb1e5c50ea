import ComSA.Lib.SortedMap
import ComSA.Motransaction.MoValue
import Mathlib.Algebra.GroupWithZero.Nat
import Mathlib.Data.String.Basic

/-!
# The cache of CM notifications

The notifications of one CCB are collected and sent as one event when the last of them has come. The
attributes come first, and the DN that they belong to after them. While the memory is counted, everything is
dropped as soon as there is too much of it.
-/

namespace ComSA.Cm

open SortedMap

abbrev CcbId := Nat

structure CmEnv where
  maxSAMemoryForCMEvents : Nat
  sizeofCcbCache : Nat
  sizeofDnCache : Nat
  sizeofAvcCache : Nat
  sizeofStructElementCache : Nat
  sizeofContainer : Nat
  sizeofValue : Nat

/-! ## Values -/

/-- What a container of the type `STRUCT` holds: structs, or the references to their objects in IMM. -/
inductive StructValues where
  | structMembers (values : List (List (String × MoAttributeValueContainer)))
  | moRefs (values : List String)
  deriving DecidableEq, Repr

inductive CmContainer where
  | plain (container : MoAttributeValueContainer)
  | struct (values : StructValues)
  deriving DecidableEq, Repr

inductive CmEventType where
  | moCreated
  | moDeleted
  | attributeValueChange
  | overflow
  deriving DecidableEq, Repr

inductive SourceIndicator where
  | resourceOperation
  | managementOperation
  | unknown
  deriving DecidableEq, Repr

structure CmEvent where
  dn : String
  eventType : CmEventType
  attributes : List (String × CmContainer)
  deriving DecidableEq, Repr

structure CmNotification where
  txHandle : Nat
  sourceIndicator : SourceIndicator
  events : List CmEvent
  deriving DecidableEq, Repr

def stringLength : MoValue → Nat
  | .text s => s.utf8ByteSize
  | _ => 0

def memgetAVC (env : CmEnv) : CmContainer → Nat
  | .plain avc => env.sizeofContainer + avc.values.length * env.sizeofValue +
      if avc.type = .string ∨ avc.type = .reference then (avc.values.map stringLength).sum else 0
  | .struct (.structMembers values) => env.sizeofContainer + values.length * env.sizeofValue
  | .struct (.moRefs values) => env.sizeofContainer + values.length * env.sizeofValue

/-! ## Counting the memory -/

/-- The bytes of a cache itself, and of what it contains. -/
structure Memory where
  self : Nat := 0
  container : Nat := 0
  deriving DecidableEq, Repr

structure MemoryChange where
  bytes : Nat
  memoryDeleted : Bool := false
  deriving DecidableEq, Repr

namespace Memory

def getMemory (m : Memory) : Nat := m.self + m.container

def setMemory (m : Memory) (change : MemoryChange) : Memory :=
  { m with
    container := if change.memoryDeleted then m.container - change.bytes else m.container + change.bytes }

def resetMemory (m : Memory) (bytes : Nat) : Memory := { m with container := bytes }

def update (env : CmEnv) (changes : List MemoryChange) (m : Memory) : Memory :=
  if env.maxSAMemoryForCMEvents = 0 then m else changes.foldl setMemory m

def created (env : CmEnv) (size : Nat) : Memory := ⟨if env.maxSAMemoryForCMEvents = 0 then 0 else size, 0⟩

end Memory

/-! ## The caches -/

structure StructElementCache where
  structElementList : List (String × MoAttributeValueContainer) := []
  memory : Memory := {}
  deriving DecidableEq, Repr

structure AvcCache where
  avcSimple : Option MoAttributeValueContainer := none
  avcReference : Option StructValues := none
  avcRuntimeStruct : Option StructValues := none
  cacheMap : List (String × StructElementCache) := []
  memory : Memory := {}
  deriving DecidableEq, Repr

structure EventTypeSet where
  create : Bool := false
  mod : Bool := false
  del : Bool := false
  deriving DecidableEq, Repr

structure DnCache where
  eventTypeSet : EventTypeSet := {}
  modifiedReference : Bool := false
  modifiedRuntimeStructObject : Bool := false
  cacheMap : List (String × AvcCache) := []
  memory : Memory := {}
  deriving DecidableEq, Repr

structure CcbCache where
  txHandle : Nat := 0
  sourceIndicator : SourceIndicator := .unknown
  cacheMap : List (String × DnCache) := []
  memory : Memory := {}
  deriving DecidableEq, Repr

structure CmNotificationCache where
  cacheMap : List (CcbId × CcbCache) := []
  memory : Memory := {}
  deriving DecidableEq, Repr

def tempCacheKey : String := "TEMP_CACHE"

variable (env : CmEnv)

namespace StructElementCache

def addToStructElementList (memberName : String) (memberValue : CmContainer) (e : StructElementCache) :
    Option StructElementCache :=
  match memberValue with
  | .struct _ => none
  | .plain avc => some
    { structElementList := e.structElementList ++ [(memberName, avc)]
      memory := e.memory.update env [⟨memgetAVC env (.plain avc), false⟩] }

def addAll (e t : StructElementCache) : StructElementCache :=
  t.structElementList.foldl (fun e m => (e.addToStructElementList env m.1 (.plain m.2)).getD e) e

/-- An element that exists gets the members, any other one is moved. -/
def takeOver (old : Option StructElementCache) (t : StructElementCache) : StructElementCache :=
  match old with
  | some e => e.addAll env t
  | none => t

end StructElementCache

namespace AvcCache

def getCache (immRdn : String) (v : AvcCache) : StructElementCache :=
  (get? immRdn v.cacheMap).getD { memory := .created env env.sizeofStructElementCache }

def elementChanges (old : Option StructElementCache) (t : StructElementCache) : List MemoryChange :=
  match old with
  | some e => [⟨e.memory.getMemory, true⟩, ⟨(e.addAll env t).memory.getMemory, false⟩]
  | none => [⟨t.memory.getMemory, false⟩]

def mergeChanges (v t : AvcCache) : List MemoryChange :=
  t.cacheMap.flatMap fun x => elementChanges env (get? x.1 v.cacheMap) x.2

def merge (v t : AvcCache) : AvcCache :=
  { v with
    cacheMap := mergeInto (StructElementCache.takeOver env) v.cacheMap t.cacheMap
    memory := v.memory.update env (v.mergeChanges env t) }

def takeOver (old : Option AvcCache) (t : AvcCache) : AvcCache :=
  match old with
  | some v => v.merge env t
  | none => t

/-- `buildAVC_configStructType`, `buildAVC_runtimeStructType` or `buildAVC_simpleType`. The lists of the
elements are not empty. -/
def build (v : AvcCache) : CmContainer :=
  if v.cacheMap ≠ [] then .struct (.structMembers (v.cacheMap.map fun x => x.2.structElementList))
  else
    match v.avcRuntimeStruct with
    | some avc => .struct avc
    | none =>
      match v.avcSimple with
      | some avc => .plain avc
      | none => .struct (.structMembers [])

end AvcCache

namespace DnCache

def getCache (attrName : String) (d : DnCache) : AvcCache :=
  (get? attrName d.cacheMap).getD { memory := .created env env.sizeofAvcCache }

def setEventType (eventType : CmEventType) (d : DnCache) : DnCache :=
  { d with eventTypeSet := match eventType with
    | .moCreated => { d.eventTypeSet with create := true }
    | .moDeleted => { d.eventTypeSet with del := true }
    | .attributeValueChange => { d.eventTypeSet with mod := true }
    | .overflow => d.eventTypeSet }

def getEventType (d : DnCache) : CmEventType :=
  if d.modifiedRuntimeStructObject then .attributeValueChange
  else if d.eventTypeSet.mod then .attributeValueChange
  else if d.eventTypeSet.create then .moCreated
  else if d.eventTypeSet.del then .moDeleted
  else if d.modifiedReference then .attributeValueChange
  else .overflow

def attrChanges (old : Option AvcCache) (t : AvcCache) : List MemoryChange :=
  match old with
  | some v => v.mergeChanges env t
  | none => [⟨t.memory.getMemory, false⟩]

def mergeChanges (d t : DnCache) : List MemoryChange :=
  t.cacheMap.flatMap fun x => attrChanges env (get? x.1 d.cacheMap) x.2

def merge (d t : DnCache) : DnCache :=
  { d with
    modifiedReference := d.modifiedReference || t.modifiedReference
    eventTypeSet :=
      { create := d.eventTypeSet.create || t.eventTypeSet.create
        mod := d.eventTypeSet.mod || t.eventTypeSet.mod
        del := d.eventTypeSet.del || t.eventTypeSet.del }
    cacheMap := mergeInto (AvcCache.takeOver env) d.cacheMap t.cacheMap
    memory := d.memory.update env (d.mergeChanges env t) }

end DnCache

namespace CcbCache

def getCache (dn : String) (c : CcbCache) : DnCache :=
  (get? dn c.cacheMap).getD { memory := .created env env.sizeofDnCache }

def buildEventStruct (c : CcbCache) : CmNotification where
  txHandle := c.txHandle
  sourceIndicator := c.sourceIndicator
  events := c.cacheMap.map fun x =>
    { dn := x.1
      eventType := x.2.getEventType
      attributes := x.2.cacheMap.map fun y => (y.1, y.2.build) }

end CcbCache

/-! ## Adding an attribute -/

inductive AttributeType where
  | simpleType
  | configStructType
  | runtimeStructType
  | referenceType
  deriving DecidableEq, Repr

def isStruct (immRdn : String) : Bool :=
  "id=".utf8ByteSize < immRdn.utf8ByteSize && "id=".toList.isPrefixOf immRdn.toList

def getAttrType (ccbId : CcbId) (immRdn : String) : CmContainer → AttributeType
  | .struct _ => if ccbId = 0 then .runtimeStructType else .referenceType
  | .plain _ => if isStruct immRdn then .configStructType else .simpleType

/-- What is added to the cache of one attribute, or nothing where that fails. -/
def AvcCache.addAttr (ccbId : CcbId) (immRdn memberName : String) (avc : CmContainer) (v : AvcCache) :
    Option AvcCache :=
  match getAttrType ccbId immRdn avc, avc with
  | .configStructType, avc =>
    ((v.getCache env immRdn).addToStructElementList env memberName avc).map fun e =>
      { v with
        cacheMap := put immRdn e v.cacheMap
        memory := if env.maxSAMemoryForCMEvents = 0 then v.memory else v.memory.resetMemory e.memory.getMemory }
  | .runtimeStructType, .struct values => some
    { v with
      avcRuntimeStruct := some values
      memory := if env.maxSAMemoryForCMEvents = 0 then v.memory else v.memory.resetMemory (memgetAVC env avc) }
  | .referenceType, .struct values => some
    { v with
      avcReference := some values
      memory := if env.maxSAMemoryForCMEvents = 0 then v.memory else v.memory.resetMemory (memgetAVC env avc) }
  | .simpleType, .plain container => some
    { v with
      avcSimple := some container
      memory := if env.maxSAMemoryForCMEvents = 0 then v.memory else v.memory.resetMemory (memgetAVC env avc) }
  | _, _ => none

def DnCache.addAttr (ccbId : CcbId) (attrName immRdn memberName : String) (avc : CmContainer) (d : DnCache) :
    Option (DnCache × MemoryChange) :=
  ((d.getCache env attrName).addAttr env ccbId immRdn memberName avc).map fun v =>
    ({ d with
        -- the object that a runtime struct refers to
        modifiedRuntimeStructObject := d.modifiedRuntimeStructObject || (ccbId = 0 && isStruct immRdn)
        modifiedReference := d.modifiedReference || getAttrType ccbId immRdn avc = .referenceType
        cacheMap := put attrName v d.cacheMap
        memory := d.memory.update env [⟨v.memory.getMemory, false⟩] },
      ⟨v.memory.getMemory, false⟩)

/-! ## The whole cache -/

/-- The cache, the CCBs that are discarded, and the events that have been pushed. -/
structure CmState where
  cache : CmNotificationCache := {}
  discardedCcbList : List CcbId := []
  pushed : List CmNotification := []
  deriving DecidableEq, Repr

inductive CmReturn where
  | ok
  | noResources
  | invalidArgument
  | failure
  deriving DecidableEq, Repr

def overflowEvent : CmNotification :=
  ⟨0, .resourceOperation, [⟨"", .overflow, []⟩]⟩

namespace CmNotificationCache

def exceeded (m : CmNotificationCache) : Bool :=
  env.maxSAMemoryForCMEvents ≠ 0 && env.maxSAMemoryForCMEvents < m.memory.getMemory

theorem not_exceeded_of_off {env : CmEnv} (hoff : env.maxSAMemoryForCMEvents = 0) (m : CmNotificationCache) :
    m.exceeded env = false := by
  unfold exceeded
  rw [hoff]
  rfl

def getCache (ccbId : CcbId) (m : CmNotificationCache) : CcbCache × CmNotificationCache :=
  match get? ccbId m.cacheMap with
  | some c => (c, m)
  | none => ({ memory := .created env env.sizeofCcbCache },
      { m with memory := m.memory.update env [⟨env.sizeofCcbCache, false⟩] })

theorem getCache_cacheMap (ccbId : CcbId) (m : CmNotificationCache) :
    (m.getCache env ccbId).2.cacheMap = m.cacheMap := by
  unfold getCache
  split <;> rfl

end CmNotificationCache

namespace CmState

def discardAllCcbs (s : CmState) : Option CmState :=
  match s.cache.cacheMap with
  | [] => some { s with pushed := s.pushed ++ [overflowEvent] }
  | _ :: _ => none

def addAttr (ccbId : CcbId) (attrName immRdn memberName : String) (avc : CmContainer) (s : CmState) :
    Option (CmReturn × CmState) :=
  if s.cache.exceeded env then s.discardAllCcbs.map fun s => (.noResources, s)
  else
    let (c, m) := s.cache.getCache env ccbId
    let d := c.getCache env tempCacheKey
    match d.addAttr env ccbId attrName immRdn memberName avc with
    -- not reached, since a struct is never taken for a member
    | none => some (.invalidArgument, s)
    | some (d, change) =>
      let c : CcbCache :=
        { c with cacheMap := put tempCacheKey d c.cacheMap, memory := c.memory.update env [change] }
      some (.ok, { s with cache := ⟨put ccbId c m.cacheMap, m.memory.update env [change]⟩ })

/-- The caches of the CCB once the temporary one has been given its DN, and what is counted for that. There is
no result where the DN is the key of the temporary cache, which would be copied into itself. -/
def storeDn (dn : String) (eventType : CmEventType) (c : CcbCache) : Option (CcbCache × List MemoryChange) :=
  let temp := (get? tempCacheKey c.cacheMap).map (DnCache.setEventType eventType)
  match get? dn c.cacheMap, temp with
  | none, none =>
    let d := (c.getCache env dn).setEventType eventType
    some ({ c with cacheMap := put dn d c.cacheMap }, [⟨d.memory.getMemory, false⟩])
  | some d, some t =>
    if dn = tempCacheKey then none
    else some ({ c with cacheMap := put dn (d.merge env t) c.cacheMap },
      ⟨t.memory.getMemory, true⟩ :: d.mergeChanges env t)
  | none, some t => some ({ c with cacheMap := put dn t c.cacheMap }, [])
  | some _, none => some (c, [])

def setDn (ccbId : CcbId) (sourceIndicator : SourceIndicator) (dn : String) (eventType : CmEventType)
    (ccbLast : Bool) (s : CmState) : Option (CmReturn × CmState) :=
  if s.cache.exceeded env then s.discardAllCcbs.map fun s => (.noResources, s)
  else
    let (c, m) := s.cache.getCache env ccbId
    match storeDn env dn eventType { c with sourceIndicator } with
    | none => none
    | some (c, changes) =>
      let c : CcbCache :=
        { c with cacheMap := erase tempCacheKey c.cacheMap, memory := c.memory.update env changes }
      let memory := m.memory.update env changes
      if ccbLast then
        let d := c.getCache env dn
        let c : CcbCache := { c with cacheMap := put dn d c.cacheMap }
        let pushed :=
          if d.cacheMap = [] ∧ eventType = .attributeValueChange then s.pushed
          else s.pushed ++ [c.buildEventStruct]
        some (.ok, { s with
          pushed
          cache := ⟨erase ccbId m.cacheMap, memory.update env [⟨c.memory.getMemory, true⟩]⟩ })
      else some (.ok, { s with cache := ⟨put ccbId c m.cacheMap, memory⟩ })

end CmState

inductive CmCall where
  | addAttr (ccbId : CcbId) (attrName immRdn memberName : String) (avc : CmContainer)
  | setDn (ccbId : CcbId) (sourceIndicator : SourceIndicator) (dn : String) (eventType : CmEventType)
      (ccbLast : Bool)
  deriving DecidableEq, Repr

/-- One call after the other. A call without a result is the end of the run. -/
def CmCall.step (o : Option CmState) (call : CmCall) : Option CmState :=
  o.bind fun s => match call with
    | addAttr ccbId attrName immRdn memberName avc =>
      (s.addAttr env ccbId attrName immRdn memberName avc).map Prod.snd
    | setDn ccbId sourceIndicator dn eventType ccbLast =>
      (s.setDn env ccbId sourceIndicator dn eventType ccbLast).map Prod.snd

end ComSA.Cm
