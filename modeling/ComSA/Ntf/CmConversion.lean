import Mathlib.Data.List.Infix
import ComSA.Lib.Program
import ComSA.Ntf.CmNotificationCache

/-!
# The conversion of CM notifications

What a notification of NTF makes of the cache: the attributes that shall be notified are added to it, and the
DN of the object is set. The attributes that the CCB itself is known by come first, and whether it is
discarded decides about all the others.
-/

namespace ComSA.Cm

/-! ## The cache as it is called -/

/-- The functions of the cache, with `none` for `NULL`. -/
inductive CmCacheCall where
  | addToCmCache (ccbId : CcbId) (attrName : Option String) (immRdn : String) (memberName : Option String)
      (memberValue : Option CmContainer)
  | setDnInCmCache (ccbId : CcbId) (sourceIndicator : SourceIndicator) (dn : String) (eventType : CmEventType)
      (ccbLast : Bool)
  | isDiscardedCcb (ccbId : CcbId)
  | removeDiscardedCcb (ccbId : CcbId)

def CmCacheCall.Answer : CmCacheCall → Type
  | addToCmCache .. => CmReturn
  | setDnInCmCache .. => CmReturn
  | isDiscardedCcb _ => Bool
  | removeDiscardedCcb _ => Unit

abbrev CmProgram := Program CmCacheCall CmCacheCall.Answer

def addToCmCache (ccbId : CcbId) (attrName : Option String) (immRdn : String) (memberName : Option String)
    (memberValue : Option CmContainer) : CmProgram CmReturn :=
  Program.ask (CmCacheCall.addToCmCache ccbId attrName immRdn memberName memberValue)

def setDnInCmCache (ccbId : CcbId) (sourceIndicator : SourceIndicator) (dn : String) (eventType : CmEventType)
    (ccbLast : Bool) : CmProgram CmReturn :=
  Program.ask (CmCacheCall.setDnInCmCache ccbId sourceIndicator dn eventType ccbLast)

def isDiscardedCcb (ccbId : CcbId) : CmProgram Bool := Program.ask (CmCacheCall.isDiscardedCcb ccbId)

def removeDiscardedCcb (ccbId : CcbId) : CmProgram Unit := Program.ask (CmCacheCall.removeDiscardedCcb ccbId)

def cmCache (env : CmEnv) : Component CmCacheCall CmCacheCall.Answer CmState
  | .addToCmCache _ _ _ _ none, s => some (CmReturn.failure, s)
  -- no string is made of `NULL`
  | .addToCmCache _ none _ _ (some _), _ => none
  | .addToCmCache ccbId (some attrName) immRdn memberName (some memberValue), s =>
    s.addAttr env ccbId attrName immRdn (memberName.getD "") memberValue
  | .setDnInCmCache ccbId sourceIndicator dn eventType ccbLast, s =>
    (s.setDn env ccbId sourceIndicator dn eventType ccbLast).map fun x =>
      (if x.1 = .ok then CmReturn.ok else CmReturn.failure, x.2)
  | .isDiscardedCcb ccbId, s =>
    some ((if env.maxSAMemoryForCMEvents = 0 then false else decide (ccbId ∈ s.discardedCcbList) : Bool), s)
  | .removeDiscardedCcb ccbId, s =>
    some ((), if env.maxSAMemoryForCMEvents = 0 then s
      else { s with discardedCcbList := s.discardedCcbList.filter fun c => c ≠ ccbId })

/-! ## The notification -/

inductive NtfValue where
  | text (s : String)
  | number (n : Nat)
  deriving DecidableEq, Repr

structure NtfAttribute where
  attributeId : Nat
  value : NtfValue
  deriving DecidableEq, Repr

structure AdditionalInfo where
  infoId : Nat
  isString : Bool
  name : Option String
  deriving DecidableEq, Repr

inductive NtfNotificationType where
  | objectCreateDelete
  | attributeChange
  | other
  deriving DecidableEq, Repr

inductive NtfSourceIndicator where
  | objectOperation
  | managementOperation
  | other
  deriving DecidableEq, Repr

structure NtfNotification where
  type : NtfNotificationType
  sourceIndicator : NtfSourceIndicator
  notificationObject : String
  objectCreation : Bool
  additionalInfo : List AdditionalInfo
  numAttributes : Nat
  attributes : Option (List NtfAttribute)
  deriving DecidableEq, Repr

/-- What the MOMs and IMM tell while the notification is converted. -/
structure NtfView where
  isNotified : (attributeName : Option String) → (className immRdn : String) → Bool
  getClassName : (immRdn : String) → Option String
  isStructAttribute : (immRdn saAttributeName : String) → Bool
  getStructAttributeName : (immRdn saAttributeName : String) → Option String
  fillStructMembers : (immRdn saAttributeName : String) → Option CmContainer
  getAttributeValuesContainerValue : (infoId : Nat) → (immRdn saAttributeName : String) →
    (structAttributeName : Option String) → Option CmContainer
  convertTo3Gpp : (immRdn : String) → Option String
  convertTo3GPPDNCOMCASE : (immRdn : String) → String

structure CacheInformation where
  ccbId : CcbId := 0
  ccbLast : Bool := false
  deriving DecidableEq, Repr

def saTrue : Nat := 1

namespace NtfNotification

def getAttributeValue (infoId : Nat) (n : NtfNotification) : Option NtfValue :=
  (((n.attributes.getD []).take n.numAttributes).find? fun a => a.attributeId = infoId).map NtfAttribute.value

def getClassNameOfNotification (n : NtfNotification) : Option String :=
  match n.getAttributeValue 1 with
  | some (.text className) => some className
  | _ => none

def numberOf (infoId : Nat) (n : NtfNotification) : Nat :=
  match n.getAttributeValue infoId with
  | some (.number v) => v
  | _ => 0

def checkForMandatoryAttributes (saAttributeName : Option String) (n : NtfNotification) (c : CacheInformation) :
    CacheInformation :=
  match saAttributeName with
  | none => c
  | some name =>
    let c := if name = "SaImmOiCcbIdT" then { c with ccbId := n.numberOf 2 } else c
    if name = "ccbLast" then { c with ccbLast := n.numberOf 3 = saTrue } else c

/-! ## Simple attributes -/

def attributesToNotify (view : NtfView) (className : String) (n : NtfNotification) :
    List AdditionalInfo → CacheInformation → List (String × Nat) × CacheInformation
  | [], c => ([], c)
  | info :: infos, c =>
    if info.isString then
      let (attributes, c) := n.attributesToNotify view className infos (n.checkForMandatoryAttributes info.name c)
      match info.name with
      | some name =>
        if view.isNotified (some name) className n.notificationObject then ((name, info.infoId) :: attributes, c)
        else (attributes, c)
      | none => (attributes, c)
    else n.attributesToNotify view className infos c

def runtimeStruct : Option CmContainer → CmContainer
  | none => .struct (.structMembers [])
  | some (.struct (.structMembers values)) =>
    if [] ∈ values then .struct (.structMembers []) else .struct (.structMembers values)
  | some container => container

/-- One call of the cache for each attribute, until it has no resources. -/
def sendAttributes (view : NtfView) (n : NtfNotification) (ccbId : CcbId) (returnValue : Bool) :
    List (String × Nat) → CmProgram Bool
  | [] => pure returnValue
  | (name, infoId) :: attributes =>
    if infoId = 0 then n.sendAttributes view ccbId returnValue attributes
    else do
      let immRdn := n.notificationObject
      let result ←
        if ccbId = 0 ∧ view.isStructAttribute immRdn name = true then
          addToCmCache ccbId (view.getStructAttributeName immRdn name) immRdn none
            (some (runtimeStruct (view.fillStructMembers immRdn name)))
        else
          addToCmCache ccbId (some name) immRdn none
            (view.getAttributeValuesContainerValue infoId immRdn name none)
      if result = .noResources then pure false else n.sendAttributes view ccbId returnValue attributes

def transformAttributeList (view : NtfView) (isCreate : Bool) (n : NtfNotification) (c : CacheInformation) :
    CmProgram (Bool × CacheInformation) :=
  match n.getClassNameOfNotification with
  | none => pure (false, c)
  | some className => do
    let (attributes, c) := n.attributesToNotify view className (n.additionalInfo.drop 2) c
    let returnValue := (isCreate && view.isNotified none className n.notificationObject) || attributes ≠ []
    if ← isDiscardedCcb c.ccbId then pure (false, c)
    else
      let returnValue ← n.sendAttributes view c.ccbId returnValue attributes
      pure (returnValue, c)

/-! ## The members of a struct -/

def isStructObject (n : NtfNotification) : Bool := "id=".toList.isPrefixOf n.notificationObject.toList

def sendMember (view : NtfView) (n : NtfNotification) (ccbId : CcbId) (name : String) (infoId : Nat) :
    CmProgram CmReturn :=
  let immRdn := n.notificationObject
  let structAttributeName := view.getStructAttributeName immRdn name
  if ccbId ≠ 0 then
    match structAttributeName with
    | some structName =>
      if structName ≠ name then
        addToCmCache ccbId structAttributeName immRdn (some name)
          (view.getAttributeValuesContainerValue infoId immRdn name structAttributeName)
      else pure .ok
    | none => pure .ok
  else
    addToCmCache ccbId structAttributeName immRdn none
      (some ((view.fillStructMembers immRdn name).getD (.struct (.structMembers []))))

def sendMembers (view : NtfView) (className : String) (n : NtfNotification) :
    List AdditionalInfo → Bool → CacheInformation → CmProgram (Bool × CacheInformation)
  | [], returnValue, c => pure (returnValue, c)
  | info :: infos, returnValue, c =>
    if info.isString then do
      let c := n.checkForMandatoryAttributes info.name c
      -- the attributes behind are not read any more, `ccbLast` among them
      if ← isDiscardedCcb c.ccbId then pure (false, c)
      else
        match info.name with
        | none => n.sendMembers view className infos returnValue c
        | some name =>
          if view.isNotified (some name) className n.notificationObject = true ∧
              (n.isStructObject = true ∨ view.isStructAttribute n.notificationObject name = true) then do
            let result ← n.sendMember view c.ccbId name info.infoId
            if result = .noResources then pure (false, c)
            else n.sendMembers view className infos true c
          else n.sendMembers view className infos returnValue c
    else n.sendMembers view className infos returnValue c

def transformAttributeListStruct (view : NtfView) (n : NtfNotification) (c : CacheInformation) :
    CmProgram (Bool × CacheInformation) :=
  match n.getClassNameOfNotification with
  | none => pure (false, c)
  | some className =>
    let returnValue :=
      match view.getClassName n.notificationObject with
      | some comClassName => view.isNotified none comClassName n.notificationObject
      | none => false
    n.sendMembers view className (n.additionalInfo.drop 2) returnValue c

/-! ## The whole notification -/

def isCOMSAAdminOwner (n : NtfNotification) : Bool :=
  match n.attributes.bind List.head? with
  | none => false
  | some first =>
    match n.getAttributeValue first.attributeId with
    | some (.text adminOwner) => "OAMSA".toList.isPrefixOf adminOwner.toList
    | _ => false

def toSourceIndicator (n : NtfNotification) : SourceIndicator :=
  match n.sourceIndicator with
  | .objectOperation => .resourceOperation
  | .managementOperation => if n.isCOMSAAdminOwner then .managementOperation else .unknown
  | .other => .unknown

def convertTo3GPPDN (view : NtfView) (n : NtfNotification) : Option String :=
  if "3GPP".toList.isPrefixOf n.notificationObject.toList then
    some (String.ofList (n.notificationObject.toList.drop 4))
  else view.convertTo3Gpp n.notificationObject

/-- The CCB of a deleted object, from the places where its attributes have it. -/
def deletedInformation (l : List NtfAttribute) (n : NtfNotification) : CacheInformation where
  ccbLast :=
    match l[2]?.bind fun a => n.getAttributeValue a.attributeId with
    | some (.number v) => v = saTrue
    | _ => false
  ccbId :=
    match l[1]?.bind fun a => n.getAttributeValue a.attributeId with
    | some (.number v) => v
    | _ => 0

def removeStructPartOfDn (dn : String) : Option String :=
  match dn.toList.reverse.dropWhile fun x => x ≠ ',' with
  | [] => none
  | _ :: before =>
    if "id=".toList <:+: dn.toList.drop before.length then some (String.ofList before.reverse) else none

def finish (dn : String) (eventType : CmEventType) (sendsetDnInCmCache : Bool) (n : NtfNotification)
    (c : CacheInformation) : CmProgram Bool := do
  let out := removeStructPartOfDn dn
  let dnToUse := out.getD dn
  let deleteRuntimeReferencedObject := out.isSome && c.ccbId = 0 && eventType = .moDeleted
  if sendsetDnInCmCache && !deleteRuntimeReferencedObject then
    let c : CacheInformation := { c with ccbLast := c.ccbLast || c.ccbId = 0 }
    let _ ← setDnInCmCache c.ccbId n.toSourceIndicator ((removeStructPartOfDn dnToUse).getD dnToUse) eventType
      c.ccbLast
    if c.ccbLast then removeDiscardedCcb c.ccbId
  else if c.ccbLast then removeDiscardedCcb c.ccbId
  pure true

/-- An object that is there has a DN by its name in IMM, or there is none. -/
def finishExisting (view : NtfView) (eventType : CmEventType) (n : NtfNotification)
    (x : Bool × CacheInformation) : CmProgram Bool :=
  match n.convertTo3GPPDN view with
  | none => pure false
  | some dn => n.finish dn eventType x.1 x.2

def convertDeletion (view : NtfView) (n : NtfNotification) : CmProgram Bool :=
  match view.getClassName n.notificationObject with
  | none => n.finishExisting view .moDeleted (false, {})
  | some className =>
    let finishDeleted (c : CacheInformation) : CmProgram Bool := do
      let discarded ← isDiscardedCcb c.ccbId
      n.finish (view.convertTo3GPPDNCOMCASE n.notificationObject) .moDeleted (!discarded) c
    if view.isNotified none className n.notificationObject = true ∧ n.numAttributes ≠ 0 then
      match n.attributes with
      | none => pure false
      | some l => finishDeleted (n.deletedInformation l)
    else finishDeleted {}

def convertCMNotificationHeader (view : NtfView) (n : NtfNotification) : CmProgram Bool :=
  match n.type with
  | .objectCreateDelete =>
    if n.objectCreation then do
      let x ← if n.isStructObject then n.transformAttributeListStruct view {}
        else n.transformAttributeList view true {}
      n.finishExisting view .moCreated x
    else n.convertDeletion view
  | .attributeChange => do
    let x ← if n.isStructObject then n.transformAttributeListStruct view {}
      else n.transformAttributeList view false {}
    n.finishExisting view .attributeValueChange x
  | .other => pure false

def ccbId (view : NtfView) (n : NtfNotification) : CcbId :=
  if n.type = .objectCreateDelete ∧ n.objectCreation = false then
    match view.getClassName n.notificationObject with
    | none => 0
    | some className =>
      if view.isNotified none className n.notificationObject = true ∧ n.numAttributes ≠ 0 then
        (n.deletedInformation (n.attributes.getD [])).ccbId
      else 0
  else
    match n.getClassNameOfNotification with
    | none => 0
    | some className => (n.attributesToNotify view className (n.additionalInfo.drop 2) {}).2.ccbId

end NtfNotification

end ComSA.Cm
