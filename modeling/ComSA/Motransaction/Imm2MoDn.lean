import ComSA.Motransaction.MO2ImmDn
import ComSA.Motransaction.NamingRule

/-!
# From an IMM name to an MO name

`Imm2MO_DN` takes the parts of an IMM name from the last one up. The last part tells the root class, and the
path that is stored for that class is put in front. The class of each part is asked of IMM under the name
that ends with the part. The repositories are populated.
-/

namespace ComSA.Translator

open Naming (ImmClass convertImmNameFragmentTo3GPPNameFragment)

def MOMRootRepository.Find (theString : String) (r : MOMRootRepository) : Option MOMRootDataEntry :=
  r.myMOMRootMap.lookup (trimmed theString)

/-! ## The path to the root class -/

namespace Registry
variable (g : Registry)

def moTop : List String → String → OamSAKeyMOMRepo → String
  | [], _, _ => ""
  | moc :: below, parentName, momKeyRepo =>
    let momKeyRepo :=
      if momKeyRepo.classNameInMOM moc then momKeyRepo else g.getMOMRepo (parentName ++ "_" ++ moc)
    let keyAttribute := momKeyRepo.getKeyAttributeForClass moc
    (if convertToLowerCase keyAttribute ≠ convertToLowerCase (moc ++ STRUCT_CLASS_KEY_ATTRIBUTE) then
        moc ++ "." ++ keyAttribute ++ "=1,"
      else moc ++ "=1,") ++ moTop below moc momKeyRepo

def retriveMoTop (theMOMRetVal : Option MOMRootDataEntry) : String :=
  match theMOMRetVal with
  | some den => g.moTop den.reverse "" (g.getMOMRepo "")
  | none => ""

end Registry

/-! ## Decorated roots -/

structure ImmNames where
  /-- The decorated names of root classes, with the names that are meant. -/
  registeredDecoratedImmRootClassesName : List (String × String)
  /-- What the transaction finds out about the class of an object. -/
  immClass : String → ImmClass

namespace ImmNames
variable (names : ImmNames)

def FindUnDecoratedImmDN (decoratedImmDN : String) : String :=
  match names.registeredDecoratedImmRootClassesName.lookup (beforeEqual decoratedImmDN) with
  | some name => name ++ fromEqual decoratedImmDN
  | none => ""

def unDecorateRootDn (immRootDn : String) : Bool := names.FindUnDecoratedImmDN immRootDn != ""

end ImmNames

/-- `erase(0, positionOfEndOfDecoration)`: without a position everything is erased. -/
def eraseDecoration (positionOfEndOfDecoration : Option Nat) (classNameDecorated : List Char) : List Char :=
  match positionOfEndOfDecoration with
  | some n => classNameDecorated.drop n
  | none => []

/-- A root class with its key attribute, when the name was decorated. -/
def undecoratedRoot (positionOfEndOfDecoration : Option Nat) (temporaryNameFragment : String) : String :=
  let classNameDecorated := eraseDecoration positionOfEndOfDecoration (beforeDot temporaryNameFragment.toList)
  let nameAfterDot := String.ofList (temporaryNameFragment.toList.dropWhile (· ≠ '.'))
  let temporaryValue := removeEqualSignAndDotPartOfDN (String.ofList nameAfterDot.toList.tail)
  let keyAttributeName := temporaryValue.toList.map Char.toLower
  let keyAttributeName :=
    if keyAttributeName.length > 2 then keyAttributeName.take (keyAttributeName.length - 2) else keyAttributeName
  if classNameDecorated.map Char.toLower = keyAttributeName then
    String.ofList classNameDecorated ++
      (if '=' ∈ nameAfterDot.toList then fromEqual nameAfterDot else nameAfterDot)
  else String.ofList classNameDecorated ++ nameAfterDot

/-- A part below a decorated root. The key attribute is left out, but not that of a struct. -/
def belowDecoratedRoot (positionOfEndOfDecoration : Option Nat) (temporaryNameFragment : String) : String :=
  if '.' ∉ temporaryNameFragment.toList then temporaryNameFragment
  -- `substr(npos)` throws, and the part is added as it is
  else if '=' ∉ temporaryNameFragment.toList then temporaryNameFragment
  else
    let positionOfDot := (temporaryNameFragment.toList.takeWhile (· ≠ '.')).length
    let positionOfEqual := (temporaryNameFragment.toList.takeWhile (· ≠ '=')).length
    let classNameDecorated := eraseDecoration positionOfEndOfDecoration (beforeDot temporaryNameFragment.toList)
    String.ofList classNameDecorated ++
      (if positionOfEqual = positionOfDot + 3 ∧
          (temporaryNameFragment.toList.drop (positionOfDot + 1)).take 2 = STRUCT_CLASS_KEY_ATTRIBUTE.toList then
        String.ofList (temporaryNameFragment.toList.dropWhile (· ≠ '.'))
      else fromEqual temporaryNameFragment)

/-! ## The walk -/

def buildImmObjectPath (objectPath objectFragment : String) : String :=
  if objectPath ≠ "" ∧ objectFragment ≠ "" then objectFragment ++ "," ++ objectPath
  else if objectPath ≠ "" then objectPath
  else objectFragment

structure ImmWalkState where
  n3gpp_name : String
  currentImmDn : String := ""
  checkForTheRootOnly : Bool := true
  decoratedRoot : Bool := false
  positionOfEndOfDecoration : Option Nat := some 0
  deriving DecidableEq, Repr

section Walk
variable (g : Registry) (names : ImmNames)

def immStep (part : String) (next : Option String) (m : ImmWalkState) : ImmWalkState :=
  let currentImmDn := buildImmObjectPath m.currentImmDn part
  let checkForTheRootOnly := next.any names.unDecorateRootDn
  let m' := { m with currentImmDn, checkForTheRootOnly }
  if m.checkForTheRootOnly then
    let converted_root_dn := names.FindUnDecoratedImmDN part
    if names.unDecorateRootDn part then
      let temporaryNameFragment :=
        convertImmNameFragmentTo3GPPNameFragment (names.immClass currentImmDn) converted_root_dn
      if '.' ∈ temporaryNameFragment.toList then
        let positionOfEndOfDecoration := Naming.find converted_root_dn.toList part.toList
        { m' with
          n3gpp_name := m.n3gpp_name ++ undecoratedRoot positionOfEndOfDecoration temporaryNameFragment
          decoratedRoot := true
          positionOfEndOfDecoration }
      else { m' with n3gpp_name := m.n3gpp_name ++ temporaryNameFragment, decoratedRoot := true }
    else
      { m' with
        n3gpp_name := m.n3gpp_name ++
          convertImmNameFragmentTo3GPPNameFragment (names.immClass currentImmDn) part }
  else
    let temporaryNameFragment := convertImmNameFragmentTo3GPPNameFragment (names.immClass currentImmDn) part
    { m' with
      n3gpp_name := m.n3gpp_name ++
        (if m.decoratedRoot then belowDecoratedRoot m.positionOfEndOfDecoration temporaryNameFragment
          else temporaryNameFragment) }

def immLoop : List String → ImmWalkState → String
  | [], m => m.n3gpp_name
  | [part], m => (immStep names part none m).n3gpp_name
  | part :: next :: above, m =>
    let m := immStep names part (some next) m
    immLoop (next :: above) { m with n3gpp_name := m.n3gpp_name ++ "," }

def Imm2MO_DN (imm_name : List String) : String :=
  match imm_name.reverse with
  | [] => ""
  | last :: above =>
    if last = "" then ""
    else
      let finalSearchKey := convertImmNameFragmentTo3GPPNameFragment (names.immClass last) last
      let theMOMRetVal := g.theMOMRepository.Find (beforeEqual finalSearchKey)
      immLoop names (last :: above) { n3gpp_name := g.retriveMoTop theMOMRetVal }

end Walk

end ComSA.Translator
