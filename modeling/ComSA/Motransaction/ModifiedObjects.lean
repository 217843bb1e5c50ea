import Mathlib.Data.String.Basic
import ComSA.Lib.SortedMap
import ComSA.Lib.Visit
import ComSA.Motransaction.MoValue

/-!
# The tree of modified and created objects

One entry for each part of the names in the cache. An entry knows what kind of object
it is, holds the attributes that were written, and lists the names below it with the
last added one first.
-/

namespace ComSA

/-! ## Attributes -/

/-- `OamSADataContainer`. The type is set when an attribute is written without values. -/
structure DataContainer where
  attributeType : Option MoAttributeType := none
  data : List (MoAttributeType × MoValue) := []
  hasDefaultValue : Bool := false
  deriving DecidableEq, Repr

abbrev AttributeMap := List (String × DataContainer)

def createData (v : MoAttributeValueContainer) : List (MoAttributeType × MoValue) :=
  v.values.map (v.type, ·)

/-! ## Entries -/

inductive ModifiedEntryKind where
  | noKind
  | deletedObject
  | alteredObject
  | newObject
  deriving DecidableEq, Repr

def ModifiedEntryKind.toNat : ModifiedEntryKind → Nat
  | noKind => 0
  | deletedObject => 1
  | alteredObject => 2
  | newObject => 3

structure ObjectData where
  kind : ModifiedEntryKind := .noKind
  attributes : AttributeMap := []
  parentName : List String := []
  className : String := ""
  immName : String := ""
  deriving DecidableEq, Repr

structure ModifiedData where
  object : ObjectData := {}
  orderedNames : List String := []
  deriving DecidableEq, Repr

abbrev ModifiedMap := Forest String ModifiedData

abbrev ModifiedEntry := ModifiedData × ModifiedMap

namespace ObjectData

def setEntryKind (theKind : ModifiedEntryKind) (o : ObjectData) : ObjectData :=
  if o.kind.toNat < theKind.toNat then { o with kind := theKind } else o

def isNewObject (o : ObjectData) : Bool := o.kind = .newObject
def isModifiedObject (o : ObjectData) : Bool := o.kind = .alteredObject

def asNew (immName className : String) (parentName : List String) (attributeName : String)
    (v : MoAttributeValueContainer) (o : ObjectData) : ObjectData :=
  let c := (SortedMap.get? attributeName o.attributes).getD {}
  { o.setEntryKind .newObject with
    immName := immName
    className := className
    parentName := parentName
    attributes := SortedMap.put attributeName { c with data := createData v } o.attributes }

/-- The container after `insert` has written to it. An attribute without values remembers whether
it had one before. -/
def alteredContainer (v : MoAttributeValueContainer) (old : Option DataContainer) : DataContainer :=
  let c := old.getD {}
  if v.values = [] then
    { attributeType := some v.type, data := [], hasDefaultValue := !c.data.isEmpty }
  else { c with data := createData v }

def asAltered (immName attributeName : String) (v : MoAttributeValueContainer) (o : ObjectData) :
    ObjectData :=
  { o.setEntryKind .alteredObject with
    immName := immName
    attributes := SortedMap.put attributeName
      (alteredContainer v (SortedMap.get? attributeName o.attributes)) o.attributes }

end ObjectData

namespace ModifiedObjects

open Forest

/-! ## Names -/

/-- Adds a name to an entry unless it is there. A new name comes first in the ordered list. -/
def addName (part : String) (entry : ModifiedEntry) : ModifiedEntry :=
  match entry.2.find part with
  | some _ => entry
  | none =>
    ({ entry.1 with orderedNames := part :: entry.1.orderedNames }, entry.2.add part ({}, .nil))

/-- Adds the parts of a name one below the other and changes the object of the last one. -/
def addNames (f : ObjectData → ObjectData) : List String → ModifiedEntry → ModifiedEntry
  | [], entry => ({ entry.1 with object := f entry.1.object }, entry.2)
  | part :: rest, entry =>
    let entry := addName part entry
    match entry.2.find part with
    | none => entry
    | some next => (entry.1, entry.2.set part (addNames f rest next))

/-! ## The member functions -/

def insertNewObject (parts : List String) (immName className : String) (parentName : List String)
    (attributeName : String) (v : MoAttributeValueContainer) (root : ModifiedEntry) :
    ModifiedEntry :=
  addNames (ObjectData.asNew immName className parentName attributeName v) parts root

def insert (parts : List String) (immName attributeName : String) (v : MoAttributeValueContainer)
    (root : ModifiedEntry) : ModifiedEntry :=
  addNames (ObjectData.asAltered immName attributeName v) parts root

def find (parts : List String) (root : ModifiedEntry) : Bool := (descend parts root).isSome

def findAttribute (parts : List String) (attributeName : String) (root : ModifiedEntry) :
    Option DataContainer :=
  (descend parts root).bind fun entry => SortedMap.get? attributeName entry.1.object.attributes

def dropName (part : String) (entry : ModifiedEntry) : ModifiedEntry :=
  ({ entry.1 with orderedNames := entry.1.orderedNames.filter (· ≠ part) }, entry.2.erase part)

/-- Removes an object and all below it, and says whether it was a new one. The entry above it is
the last but one that the walk went through: for a name of one part there is none, and what the
code does then is undefined. -/
def removeObject (parts : List String) (root : ModifiedEntry) : Option (Bool × ModifiedEntry) :=
  match descend parts root with
  | none => some (false, root)
  | some entry =>
    match parts.dropLast, parts.getLast? with
    | above@(_ :: _), some last =>
      some (entry.1.object.isNewObject, changeBelow (dropName last) above root)
    | _, _ => none

/-! ## The lists for the commit -/

structure ObjectOf where
  name : List String
  object : ObjectData
  deriving DecidableEq, Repr

/-- Both traversals follow the ordered lists and take the objects below an entry first. -/
def traverse (keep : ObjectData → Bool) (root : ModifiedEntry) : List ObjectOf :=
  ((visit ModifiedData.orderedNames [] root).filter fun x => keep x.2.object).map fun x =>
    ⟨x.1, x.2.object⟩

def getCreatedData (root : ModifiedEntry) : List ObjectOf := traverse ObjectData.isNewObject root

def getModifiedData (root : ModifiedEntry) : List ObjectOf :=
  traverse ObjectData.isModifiedObject root

end ModifiedObjects

end ComSA
