import Mathlib.Logic.Function.Basic
import ComSA.Motransaction.MoValue

/-!
# The cache of struct values

The values of a struct attribute come one by one. They are collected for each CCB and sent
to the object implementer with one call, before anything else of the CCB is.
-/

namespace ComSA.OIproxy

abbrev CcbId := Nat

abbrev TxHandle := Nat

abbrev MoIf := Nat

structure StructMember where
  memberName : String
  memberValue : Option MoAttributeValueContainer
  deriving DecidableEq, Repr

abbrev StructValue := List StructMember

inductive AttrValue where
  | simple (container : MoAttributeValueContainer)
  | struct (values : List StructValue)
  deriving DecidableEq, Repr

/-- A call of an object implementer. `setMoAttribute` is at the same place in both versions of the
interface. -/
inductive OiCall where
  | createMo (moIf : MoIf) (version2 : Bool) (txHandle : TxHandle)
      (dn className keyAttrName keyAttrValue : String)
  | deleteMo (moIf : MoIf) (version2 : Bool) (txHandle : TxHandle) (dn : String)
  | setMoAttribute (moIf : MoIf) (txHandle : TxHandle) (dn attrName : String) (value : AttrValue)
  deriving DecidableEq, Repr

inductive CacheStatus where
  | empty
  | inuse
  deriving DecidableEq, Repr

inductive Values where
  | null
  | block (values : List StructValue)
  | freed
  deriving DecidableEq, Repr

namespace Values

def toList : Values → List StructValue
  | block values => values
  | _ => []

/-- A block that is resized to nothing is freed, and there is no result where a block is freed twice. -/
def realloc (more : List StructValue) : Values → Option (Bool × Values)
  | null => some (true, block more)
  | block values =>
    if values.length + more.length = 0 then some (false, freed) else some (true, block (values ++ more))
  | freed => none

def free : Values → Option Values
  | freed => none
  | _ => some null

end Values

/-- `OIProxyAttrHelperMemT`. A string that is `NULL` is empty. -/
structure AttrHelperMem where
  status : CacheStatus := .empty
  moIf : MoIf
  the3gppDn : String := ""
  attrName : String := ""
  values : Values := .null
  deriving DecidableEq, Repr

structure CacheEnv where
  tx : CcbId → TxHandle
  /-- What the implementers answer, one call after the other. -/
  answers : Nat → MafReturn

structure StructCache where
  attrStructCache : CcbId → Option AttrHelperMem
  /-- The calls that were made, with the CCB they were made for. -/
  log : List (CcbId × OiCall)

def StructCache.initial : StructCache := ⟨fun _ => none, []⟩

variable (env : CacheEnv) (ccbId : CcbId)

namespace StructCache

def setMem (mem : AttrHelperMem) (s : StructCache) : StructCache :=
  { s with attrStructCache := Function.update s.attrStructCache ccbId (some mem) }

def send (call : OiCall) (s : StructCache) : MafReturn × StructCache :=
  (env.answers s.log.length, { s with log := s.log ++ [(ccbId, call)] })

def inUse (s : StructCache) : Option AttrHelperMem :=
  (s.attrStructCache ccbId).filter fun mem => mem.status = .inuse

end StructCache

open StructCache

inductive CmpResult where
  | ok
  | different
  | empty
  deriving DecidableEq, Repr

def isSameStructType (dn attrName : String) (s : StructCache) : CmpResult :=
  match s.inUse ccbId with
  | none => .empty
  | some mem => if mem.attrName = attrName ∧ mem.the3gppDn = dn then .ok else .different

def existCacheData (s : StructCache) : Bool := (s.inUse ccbId).isSome

def emptyHelperMemory (mem : AttrHelperMem) : Option AttrHelperMem :=
  if mem.status = .empty then some mem
  else mem.values.free.map fun values =>
    { mem with status := .empty, the3gppDn := "", attrName := "", values := values }

def cleanCcbId (s : StructCache) : Option StructCache :=
  match s.attrStructCache ccbId with
  | none => some s
  | some mem => (emptyHelperMemory mem).map fun mem => s.setMem ccbId mem

def addAttrValueContainer (moIf : MoIf) (dn attrName : String) (values : List StructValue) (s : StructCache) :
    Option (MafReturn × StructCache) :=
  let mem := (s.attrStructCache ccbId).getD { moIf := moIf }
  if isSameStructType ccbId dn attrName s = .different then some (.invalidArgument, s)
  else
    match mem.values.realloc values with
    | none => none
    | some (false, newval) => some (.failure, s.setMem ccbId { mem with values := newval })
    | some (true, newval) =>
      some (.ok, s.setMem ccbId { mem with
        the3gppDn := if mem.status = .empty then dn else mem.the3gppDn
        attrName := if mem.status = .empty then attrName else mem.attrName
        values := newval
        status := .inuse })

def cache_sendMoData (s : StructCache) : MafReturn × StructCache :=
  match s.inUse ccbId with
  | none => (.notExist, s)
  | some mem =>
    s.send env ccbId (.setMoAttribute mem.moIf (env.tx ccbId) mem.the3gppDn mem.attrName
      (.struct mem.values.toList))

def cache_sendCache (s : StructCache) : Option (MafReturn × StructCache) :=
  match cache_sendMoData env ccbId s with
  | (.ok, s) => (cleanCcbId ccbId s).map fun s => (.ok, s)
  | r => some r

def sendCached (s : StructCache) : Option (MafReturn × StructCache) :=
  if existCacheData ccbId s then cache_sendCache env ccbId s else some (.ok, s)

def sendAfterCached (call : OiCall) (s : StructCache) : Option (MafReturn × StructCache) :=
  match sendCached env ccbId s with
  | none => none
  | some (.ok, s) => some (s.send env ccbId call)
  | r => r

def cache_setMoAttribute (moIf : MoIf) (dn attrName : String) (value : AttrValue) (s : StructCache) :
    Option (MafReturn × StructCache) :=
  match value with
  | .simple _ => sendAfterCached env ccbId (.setMoAttribute moIf (env.tx ccbId) dn attrName value) s
  | .struct values =>
    match isSameStructType ccbId dn attrName s with
    | .different =>
      match cache_sendCache env ccbId s with
      | none => none
      | some (.ok, s) => addAttrValueContainer ccbId moIf dn attrName values s
      | r => r
    | _ => addAttrValueContainer ccbId moIf dn attrName values s

def cache_deleteMo (moIf : MoIf) (version2 : Bool) (dn : String) (s : StructCache) :
    Option (MafReturn × StructCache) :=
  sendAfterCached env ccbId (.deleteMo moIf version2 (env.tx ccbId) dn) s

def cache_createMo (moIf : MoIf) (version2 : Bool) (dn className keyAttrName keyAttrValue : String)
    (s : StructCache) : Option (MafReturn × StructCache) :=
  sendAfterCached env ccbId
    (.createMo moIf version2 (env.tx ccbId) dn className keyAttrName keyAttrValue) s

def cache_ccbApply (s : StructCache) : Option (MafReturn × StructCache) := sendCached env ccbId s

def cache_ccbAbort (s : StructCache) : Option StructCache :=
  if existCacheData ccbId s then cleanCcbId ccbId s else some s

end ComSA.OIproxy
