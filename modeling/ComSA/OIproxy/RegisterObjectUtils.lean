import Mathlib.Logic.Function.Basic
import ComSA.Motransaction.MoValue

/-!
# What components are registered for

Classes, single objects and the struct classes of their attributes, with the interfaces of the
component that registered them.
-/

namespace ComSA.OIproxy

structure Interface where
  componentName : String
  interfaceName : String
  interfaceVersion : String
  deriving DecidableEq, Repr

structure MoAttribute where
  name : String
  /-- The name of the struct type, of an attribute of type STRUCT. -/
  structDatatype : Option String
  deriving DecidableEq, Repr

inductive Moc where
  | mk (name : String) (moAttribute : List MoAttribute) (childMoc : List Moc)

namespace Moc

def name : Moc → String
  | mk name _ _ => name

def moAttribute : Moc → List MoAttribute
  | mk _ attributes _ => attributes

def childMoc : Moc → List Moc
  | mk _ _ children => children

end Moc

/-- An attribute of type STRUCT and the class of its values in IMM. -/
structure ComplexAttribute where
  name : String
  immClassName : String
  deriving DecidableEq, Repr

def getMocComplexAttributes (moc : Moc) : List ComplexAttribute :=
  moc.moAttribute.filterMap fun attr => attr.structDatatype.map fun type => ⟨attr.name, type⟩

structure RegisteredClassStruct where
  managedObjectInterfaceId : Interface
  transactionalResourceId : Interface
  mocPath : String
  deriving DecidableEq, Repr

structure RegisteredCTClassStruct where
  managedObjectInterfaceId : Interface
  transactionalResourceId : Interface
  path : String
  deriving DecidableEq, Repr

structure RegisteredDNStruct where
  managedObjectInterfaceId : Interface
  transactionalResourceId : Interface
  dnMoc : Moc

/-- The three maps, and what IMM knows of the two implementers. A struct class that is not in the map
has no entries, as its entry is erased with the last of them. -/
structure Registry where
  registeredClass : String → Option RegisteredClassStruct
  registeredComplexTypeClass : String → List RegisteredCTClassStruct
  registeredDN : String → Option RegisteredDNStruct
  classImplementer : String → Bool
  objectImplementer : String → Bool
  applierImplementer : String → Bool

namespace Registry

def initial : Registry where
  registeredClass := fun _ => none
  registeredComplexTypeClass := fun _ => []
  registeredDN := fun _ => none
  classImplementer := fun _ => false
  objectImplementer := fun _ => false
  applierImplementer := fun _ => false

def existRegisteredClass (className : String) (s : Registry) : Bool := (s.registeredClass className).isSome

def existRegisteredDN (dn : String) (s : Registry) : Bool := (s.registeredDN dn).isSome

def existRegisteredCTClass (immClassName : String) (s : Registry) : Bool :=
  !(s.registeredComplexTypeClass immClassName).isEmpty

def existRegisteredCTClassAttr (immClassName path : String) (s : Registry) : Bool :=
  (s.registeredComplexTypeClass immClassName).any fun ctStruct => ctStruct.path == path

def addNewRegisteredClass (moIf txIf : Interface) (className mocPath : String) (s : Registry) : Registry :=
  if s.existRegisteredClass className then s
  else { s with registeredClass := Function.update s.registeredClass className (some ⟨moIf, txIf, mocPath⟩) }

def removeRegisteredClass (className : String) (s : Registry) : Registry :=
  { s with registeredClass := Function.update s.registeredClass className none }

def addNewRegisteredDN (moIf txIf : Interface) (dn : String) (moc : Moc) (s : Registry) : Registry :=
  if s.existRegisteredDN dn then s
  else { s with registeredDN := Function.update s.registeredDN dn (some ⟨moIf, txIf, moc⟩) }

def removeRegisteredDN (dn : String) (s : Registry) : Registry :=
  { s with registeredDN := Function.update s.registeredDN dn none }

def addNewRegisteredCTClass (moIf txIf : Interface) (immClassName path : String) (s : Registry) : Registry :=
  if s.existRegisteredCTClassAttr immClassName path then s
  else { s with
    registeredComplexTypeClass := Function.update s.registeredComplexTypeClass immClassName
      (s.registeredComplexTypeClass immClassName ++ [⟨moIf, txIf, path⟩]) }

def removeRegisteredCTClass (immClassName path : String) (s : Registry) : Registry :=
  { s with
    registeredComplexTypeClass := Function.update s.registeredComplexTypeClass immClassName
      ((s.registeredComplexTypeClass immClassName).eraseP fun ctStruct => ctStruct.path == path) }

end Registry

/-! ## Paths -/

def pieces (separator : Char) : List Char → List (List Char)
  | [] => [[]]
  | c :: cs =>
    if c = separator then [] :: pieces separator cs
    else
      match pieces separator cs with
      | [] => [[c]]
      | p :: ps => (c :: p) :: ps

def GlobalSplitMocPath (mocPath : String) : List String :=
  match mocPath.toList with
  | '/' :: rest => (pieces '/' rest).map String.ofList
  | _ => []

def GlobalSplitDN (theDN : String) : List String := (pieces ',' theDN.toList).map String.ofList

def findComMoc (moc : Moc) : List String → Option Moc
  | [] => none
  | name :: rest =>
    if moc.name ≠ name then none
    else rest.foldlM (fun moc name => moc.childMoc.find? fun child => child.name == name) moc

end ComSA.OIproxy
