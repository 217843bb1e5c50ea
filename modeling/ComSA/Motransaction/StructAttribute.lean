import Mathlib.Data.List.Sort
import ComSA.Motransaction.ChildIteration
import ComSA.Motransaction.DataClasses
import ComSA.Motransaction.MO2ImmDn

/-!
# Attributes that are structs

Each value of a struct attribute is an object of its own, an instance of the struct class
below the object with the attribute. The attribute itself holds references to the
instances. Every lock is granted, as in `Bridge`.
-/

namespace ComSA

open ModifiedObjects

def STRUCT_CLASS_INDEX_SEPARATOR : String := "_"

def customizedNumericStringSort (lhs rhs : String) : Bool :=
  if lhs.utf8ByteSize = rhs.utf8ByteSize then lhs < rhs else lhs.utf8ByteSize < rhs.utf8ByteSize

def sortNames (names : List String) : List String :=
  names.insertionSort fun a b => customizedNumericStringSort b a = false

def upperFirst (s : String) : String :=
  match s.toList with
  | [] => ""
  | c :: cs => String.ofList (c.toUpper :: cs)

/-- What `getImmAttribute` finds, and `Imm2MO_AttrValue` makes of it. -/
inductive AttributeAnswer where
  | ok (ctp : ReadContainer)
  | notConverted
  | notExist
  | error
  deriving DecidableEq, Repr

/-- What the bridge asks the model and IMM for. Objects in IMM go by their IMM names. -/
structure StructEnv where
  tr : Translator
  immAttribute : String → String → MoAttributeType → AttributeAnswer
  /-- Whether the class of an object has an attribute in IMM. -/
  getImmAttributeData : List String → String → Bool
  getClassNameFromImm : String → Option String
  findAttributeTypeName : List String → String → String
  getStructMembers : List String → String → List String
  getStructMemberComDatatype : List String → String → String → Option MoAttributeType
  /-- The class of the instances in IMM, with the MOM's name before it where the object has that. -/
  structImmClassName : List String → String → String

abbrev StructValue := List (String × MoAttributeValueContainer)

abbrev ReadStruct := List (String × ReadContainer)

section Bridge
variable (env : StructEnv)

def getImmMoAttributeSimple (dn : List String) (attributeName : String) (attrType : MoAttributeType)
    (c : Cache) : MafReturn × Option ReadContainer :=
  if !env.tr.isDnListValid dn attributeName then (.failure, none)
  else if c.isDeleted dn then (.notExist, none)
  else
    match c.getAttribute dn attributeName with
    | some ctp => (.ok, some ctp)
    | none =>
      match env.immAttribute (env.tr.mo2ImmDn dn) attributeName attrType with
      | .ok ctp => (.ok, some ctp)
      | .notConverted => (.failure, none)
      | .notExist =>
        -- an object that has been created, whose attribute has not been set
        if c.isInCache dn && env.getImmAttributeData dn attributeName then (.ok, some ⟨some attrType, []⟩)
        else (.notExist, none)
      | .error => (.failure, none)

/-! ## Reading -/

/-- The loop over the members, from the last one. A member that does not exist is left out. -/
def readMembers (dn : List String) (attributeName : String) (structDn : List String) (c : Cache) :
    List String → ReadStruct → Option ReadStruct
  | [], structMembers => some structMembers
  | memberName :: memberNames, structMembers =>
    match env.getStructMemberComDatatype dn attributeName memberName with
    | none => none
    | some memberType =>
      match getImmMoAttributeSimple env structDn memberName memberType c with
      | (.ok, some memberValue) =>
        readMembers dn attributeName structDn c memberNames ((memberName, memberValue) :: structMembers)
      | (.notExist, _) => readMembers dn attributeName structDn c memberNames structMembers
      | _ => none

/-- The loop over the references. It ends with no values at all where an instance is neither in IMM nor in
the cache. -/
def readInstances (dn : List String) (attributeName : String) (c : Cache) :
    List String → List ReadStruct → MafReturn × Option (List ReadStruct)
  | [], values => (.ok, some values.reverse)
  | moRef :: moRefs, values =>
    let structDn := splitDn moRef
    let members := readMembers env dn attributeName structDn c (env.getStructMembers dn attributeName).reverse []
    match env.getClassNameFromImm (env.tr.mo2ImmDn structDn) with
    | none =>
      if !c.isInCache structDn then (.ok, some [])
      else
        match members with
        | none => (.failure, none)
        | some structMember => readInstances dn attributeName c moRefs (structMember :: values)
    | some structImmClassName =>
      if structImmClassName ≠ env.structImmClassName dn attributeName then (.failure, none)
      else
        match members with
        | none => (.failure, none)
        | some structMember => readInstances dn attributeName c moRefs (structMember :: values)

def moRefs (ctp : ReadContainer) : List String :=
  ctp.values.map fun
    | .text s => s
    | _ => ""

def readStructFromImm (dn attributeName : String) (c : Cache) : MafReturn × Option (List ReadStruct) :=
  match getImmMoAttributeSimple env (splitDn dn) attributeName .reference c with
  | (.ok, some structRef) => readInstances env (splitDn dn) attributeName c (moRefs structRef) []
  | (.notExist, _) => (.ok, some [])
  | _ => (.failure, none)

/-! ## Writing -/

def instanceId (attributeName : String) (ix : Nat) : String :=
  attributeName ++ STRUCT_CLASS_INDEX_SEPARATOR ++ toString ix

def uniqueId (attributeTypeName id : String) : String :=
  attributeTypeName ++ "." ++ Translator.STRUCT_CLASS_KEY_ATTRIBUTE ++ "=" ++ id

def ecimStructDn (dn attributeTypeName id : String) : String := dn ++ "," ++ uniqueId attributeTypeName id

def idOf (structDn : String) : String := String.ofList (afterLast '=' structDn.toList)

/-- Deletes instances one after the other, and takes their ids out of the set. -/
def deleteInstances : List String → List String → Cache → Option (MafReturn × List String × Cache)
  | [], myStructNameSet, c => some (.ok, myStructNameSet, c)
  | structDn :: structDns, myStructNameSet, c =>
    match deleteImmMo env.tr (splitDn structDn) c with
    | none => none
    | some (.ok, c) => deleteInstances structDns (myStructNameSet.filter (· ≠ idOf structDn)) c
    | some (retVal, c) => some (retVal, myStructNameSet, c)

def setMembers (structDn : List String) : StructValue → Cache → MafReturn × Cache
  | [], c => (.ok, c)
  | (memberName, memberValue) :: members, c =>
    match setImmMoAttribute env.tr structDn memberName memberValue c with
    | (.ok, c) => setMembers structDn members c
    | (setRes, c) => (setRes, c)

def createInstance (dn attributeTypeName id : String) : CreateCall where
  parent := splitDn dn
  className := upperFirst attributeTypeName
  keyAttributeName := Translator.beforeEqual
    (Translator.convert3GPPNameFragmentToImmNameFragment (uniqueId attributeTypeName id))
  keyAttributeValue := id
  initialAttributes := []

def writeInstances (dn attributeName attributeTypeName : String) (myStructNameSet : List String) :
    Nat → List StructValue → Cache → MafReturn × Cache
  | _, [], c => (.ok, c)
  | ix, value :: values, c =>
    let id := instanceId attributeName ix
    let created : MafReturn × Cache :=
      if id ∈ myStructNameSet then (.ok, c)
      else
        match createImmMo env.tr (createInstance dn attributeTypeName id) c with
        | (.ok, c) => (.ok, c)
        | (.alreadyExist, c) => (.ok, c)
        | (_, c) => (.failure, c)
    match created with
    | (.ok, c) =>
      match setMembers env (splitDn (ecimStructDn dn attributeTypeName id)) value c with
      | (.ok, c) => writeInstances dn attributeName attributeTypeName myStructNameSet (ix + 1) values c
      | (setRes, c) => (setRes, c)
    | (e, c) => (e, c)

/-- The instances that are deleted before `n` values are written: those that sort behind the first `n`, or
else the only one, when it is a password. -/
def instancesToDelete (structRef : List String) (n : Nat) : List String :=
  if n < structRef.length then (sortNames structRef).drop n
  else if structRef.length = 1 ∧ "EcimPassword".toList <:+: (structRef.headD "").toList then sortNames structRef
  else []

/-- The end of both branches: the attribute gets its references. -/
def updateReferences (dn attributeName : String) (refs : List String) (c : Cache) : MafReturn × Cache :=
  match c.updateObjectAttribute (splitDn dn) (env.tr.mo2ImmDn (splitDn dn)) attributeName
      ⟨.reference, refs.map .text⟩ with
  | (true, c) => (.ok, c)
  | (false, c) => (.failure, c)

/-- What is done with the references that the attribute holds. The container without values that the first
branch stores has the struct type, which nobody reads. -/
def replaceInstances (dn attributeName : String) (attributeValue : List StructValue)
    (structRef : List String) (c : Cache) : Option (MafReturn × Cache) :=
  if attributeValue = [] then
    match deleteInstances env structRef [] c with
    | none => none
    | some (.ok, _, c) => some (updateReferences env dn attributeName [] c)
    | some (retVal, _, c) => some (retVal, c)
  else
    let attributeTypeName := env.findAttributeTypeName (splitDn dn) attributeName
    match deleteInstances env (instancesToDelete structRef attributeValue.length) (structRef.map idOf) c with
    | none => none
    | some (.ok, myStructNameSet, c) =>
      match writeInstances env dn attributeName attributeTypeName myStructNameSet 0 attributeValue c with
      | (.ok, c) => some (updateReferences env dn attributeName ((List.range attributeValue.length).map fun ix =>
          ecimStructDn dn attributeTypeName (instanceId attributeName ix)) c)
      | (e, c) => some (e, c)
    | some (retVal, _, c) => some (retVal, c)

/-- There is no result where deleting an object is undefined. -/
def writeStructToImm (dn attributeName : String) (attributeValue : List StructValue) (c : Cache) :
    Option (MafReturn × Cache) :=
  match getImmMoAttributeSimple env (splitDn dn) attributeName .string c with
  | (.ok, some structRef) => replaceInstances env dn attributeName attributeValue (moRefs structRef) c
  | (.notExist, _) => replaceInstances env dn attributeName attributeValue [] c
  | (ret, _) => some (ret, c)

end Bridge

end ComSA
