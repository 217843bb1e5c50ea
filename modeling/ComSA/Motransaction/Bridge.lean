import ComSA.Motransaction.DeletedObjects
import ComSA.Motransaction.ModifiedObjects

/-!
# The IMM bridge and the cache of a transaction

The calls that create, delete and set managed objects write to the cache only. What
they leave there is turned into operations on IMM when the transaction is prepared.
Taking ownership of the objects is left to `Ownership`: here every lock is granted.
-/

namespace ComSA

/-! ## The translator -/

def splitChars : List Char → List (List Char)
  | [] => [[]]
  | c :: cs =>
    if c = ',' then [] :: splitChars cs
    else
      match splitChars cs with
      | [] => [[c]]
      | part :: parts => (c :: part) :: parts

def splitDn (dn : String) : List String := (splitChars dn.toList).map String.ofList

/-- The part of the translator that the bridge asks about a model. -/
structure Translator where
  mo2ImmDn : List String → String
  /-- The flag that the root repository keeps for a containment, of a parent and a child class.
  Without an entry it is `true`. -/
  containmentValid : String → String → Bool
  /-- The key attribute in IMM, of a class below a parent. -/
  getImmKeyAttribute : List String → String → String → String
  translateClassName : List String → String → String
  comAttributeList : List String → List String
  isImmRoot : List String → Bool

def className (part : String) : String := String.ofList (part.toList.takeWhile (· ≠ '='))

def undecorated (name : String) : String := String.ofList (name.toList.takeWhile (· ≠ '.'))

namespace Translator
variable (tr : Translator)

def isSplitImmDnValid (parentName childName : String) : Bool :=
  tr.containmentValid (undecorated parentName) (undecorated childName)

def isListValid : List String → String → Bool
  | [], _ => true
  | part :: above, childName =>
    tr.isSplitImmDnValid (className part) childName && isListValid above (className part)

def isDnListValid (dn : List String) (childName : String) : Bool :=
  tr.isListValid dn.reverse childName

end Translator

def convertToLowerCase (s : String) : String := String.ofList (s.toList.map Char.toLower)

/-- The last part that `BuildObjectName` puts behind the parent name. -/
def buildRdn (className keyAttributeName keyAttributeValue : String) : String :=
  (if convertToLowerCase className ++ "id" = convertToLowerCase keyAttributeName then className
    else className ++ "." ++ keyAttributeName) ++
  (if keyAttributeValue.toList.head? = some '=' then "" else "=") ++ keyAttributeValue

def buildObjectName (parent : List String) (className keyAttributeName keyAttributeValue : String) :
    List String :=
  parent ++ splitDn (buildRdn className keyAttributeName keyAttributeValue)

def buildAttributeValue (attributeName attributeValue : String) : String :=
  if '=' ∉ attributeValue.toList then attributeName ++ "=" ++ attributeValue
  else if attributeValue.toList.head? = some '=' then attributeName ++ attributeValue
  else attributeValue

def isGraph (c : Char) : Bool := 0x21 ≤ c.toNat ∧ c.toNat ≤ 0x7e

/-! ## The cache -/

structure Cache where
  modified : ModifiedEntry := ({}, .nil)
  deleted : DeletedMap := .nil
  deriving DecidableEq, Repr

namespace Cache

def isDeleted (dn : List String) (c : Cache) : Bool := DeletedObjects.isDeleted dn c.deleted

def isInCache (dn : List String) (c : Cache) : Bool := ModifiedObjects.find dn c.modified

def insertCreatedObject (dn : List String) (className : String) (parentName : List String)
    (immName attributeName attributeValue : String) (c : Cache) : Cache :=
  let v : MoAttributeValueContainer :=
    ⟨.string, [.text (buildAttributeValue attributeName attributeValue)]⟩
  { c with modified :=
      ModifiedObjects.insertNewObject dn immName className parentName attributeName v c.modified }

def removeCreatedObject (dn : List String) (c : Cache) : Option (Bool × Cache) :=
  (ModifiedObjects.removeObject dn c.modified).map fun r => (r.1, { c with modified := r.2 })

def insertDeletedObject (dn : List String) (immName : String) (c : Cache) : Cache :=
  { c with deleted := DeletedObjects.insert dn immName c.deleted }

def removeDeletedObject (dn : List String) (c : Cache) : Cache :=
  { c with deleted := DeletedObjects.remove dn c.deleted }

def updateObjectAttribute (dn : List String) (immName attributeName : String)
    (v : MoAttributeValueContainer) (c : Cache) : Bool × Cache :=
  if c.isDeleted dn then (false, c)
  else (true,
    { c with modified := ModifiedObjects.insert dn immName attributeName v c.modified })

end Cache

/-! ## The calls -/

section Calls
variable (tr : Translator)

def setImmMoAttribute (dn : List String) (attributeName : String) (v : MoAttributeValueContainer)
    (c : Cache) : MafReturn × Cache :=
  if !tr.isDnListValid dn attributeName then (.failure, c)
  else if c.isDeleted dn then (.failure, c)
  else
    match c.updateObjectAttribute dn (tr.mo2ImmDn dn) attributeName v with
    | (true, c) => (.ok, c)
    | (false, c) => (.failure, c)

/-- Sets the initial attributes one after the other. One that the class does not have is skipped,
and one that fails does not stop the others. -/
def setInitialAttributes (dn : List String) :
    List (String × MoAttributeValueContainer) → MafReturn → Cache → MafReturn × Cache
  | [], ret, c => (ret, c)
  | (name, v) :: rest, ret, c =>
    if name ∈ tr.comAttributeList dn then
      match setImmMoAttribute tr dn name v c with
      | (.ok, c) => setInitialAttributes dn rest ret c
      | (e, c) => setInitialAttributes dn rest e c
    else setInitialAttributes dn rest ret c

structure CreateCall where
  parent : List String
  className : String
  keyAttributeName : String
  keyAttributeValue : String
  initialAttributes : List (String × MoAttributeValueContainer)
  deriving DecidableEq, Repr

def CreateCall.dn (m : CreateCall) : List String :=
  buildObjectName m.parent m.className m.keyAttributeName m.keyAttributeValue

def CreateCall.immKey (m : CreateCall) : String :=
  tr.getImmKeyAttribute m.parent m.className m.keyAttributeName

/-- What `createImmMo` writes before it turns to the initial attributes. The bridge has not filled
in the IMM name that it passes on here. -/
def recordCreation (m : CreateCall) (c : Cache) : Cache :=
  let c :=
    if c.isDeleted m.dn then c
    else c.insertCreatedObject m.dn (tr.translateClassName m.parent m.className) m.parent ""
      (m.immKey tr) m.keyAttributeValue
  c.removeDeletedObject m.dn

def createImmMo (m : CreateCall) (c : Cache) : MafReturn × Cache :=
  if !m.keyAttributeValue.toList.all isGraph then (.invalidArgument, c)
  else if !tr.isDnListValid m.parent m.className then (.failure, c)
  else setInitialAttributes tr m.dn m.initialAttributes .ok (recordCreation tr m c)

/-- There is no result where removing the object from the created ones is undefined. -/
def deleteImmMo (dn : List String) (c : Cache) : Option (MafReturn × Cache) :=
  if !tr.isDnListValid dn "" then some (.failure, c)
  else
    match c.removeCreatedObject dn with
    | none => none
    | some (true, c) => some (.ok, c)
    | some (false, c) => some (.ok, c.insertDeletedObject dn (tr.mo2ImmDn dn))

def existsImmMo (immExists : String → Bool) (dn : List String) (c : Cache) : MafReturn × Bool :=
  if !tr.isDnListValid dn "" then (.failure, false)
  else if c.isDeleted dn then (.ok, false)
  else if c.isInCache dn then (.ok, true)
  else (.ok, immExists (tr.mo2ImmDn dn))

end Calls

end ComSA
