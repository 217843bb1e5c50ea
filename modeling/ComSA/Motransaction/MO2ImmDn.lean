import ComSA.Motransaction.Bridge
import ComSA.Motransaction.MOMRootRepository

/-!
# From an MO name to an IMM name

`MO2Imm_DN` takes the parts of a name from the last one up. For each part it asks the
key repository of the MOM that the part is in, and it stops at the first root where the
name splits. The repositories are populated: nothing here stores into them.
-/

namespace ComSA.Translator

def STRUCT_CLASS_KEY_ATTRIBUTE : String := "id"

/-! ## The key attributes -/

structure OamSAKeyMOMRepo where
  /-- For each class the key attribute, and the decorated one. -/
  keyAttributeMap : List (String × String × String) := []
  deriving DecidableEq, Repr

namespace OamSAKeyMOMRepo

def getKeyAttributeForClass (r : OamSAKeyMOMRepo) (className : String) : String :=
  ((r.keyAttributeMap.lookup className).getD ("", "")).1

def getDecoratedKeyAttributeForClass (r : OamSAKeyMOMRepo) (className : String) : String :=
  ((r.keyAttributeMap.lookup className).getD ("", "")).2

def classNameInMOM (r : OamSAKeyMOMRepo) (className : String) : Bool :=
  r.getKeyAttributeForClass className != ""

end OamSAKeyMOMRepo

structure Registry where
  theMOMRepository : MOMRootRepository
  registeredParentMOCWithMOMVALUESet : List String
  registeredDecoratedIMMKeyAttributes : List (String × String)
  /-- The MOMs, by the parent of the root class and the root class. -/
  theKeyHolder : List (String × OamSAKeyMOMRepo)
  deriving DecidableEq, Repr

/-! ## Names -/

def beforeEqual (s : String) : String := String.ofList (s.toList.takeWhile (· ≠ '='))

def fromEqual (s : String) : String := String.ofList (s.toList.dropWhile (· ≠ '='))

def removeEqualSignAndDotPartOfDN (theString : String) : String :=
  if '=' ∈ theString.toList then trimmed theString else theString

def dotInClass (s : String) : Bool := '.' ∈ s.toList.takeWhile (· ≠ '=')

def lowerFirst (s : String) : String :=
  match s.toList with
  | [] => ""
  | c :: cs => String.ofList (c.toLower :: cs)

def rfind (t s : List Char) : Option Nat :=
  ((List.range (s.length + 1)).filter fun i => t.isPrefixOf (s.drop i)).getLast?

namespace Registry
variable (g : Registry)

def momNameExist (parentClass_rootClass : String) : Bool :=
  (g.theKeyHolder.lookup parentClass_rootClass).isSome

def getMOMRepo (parentClass_rootClass : String) : OamSAKeyMOMRepo :=
  (g.theKeyHolder.lookup parentClass_rootClass).getD {}

/-! ## Roots and decorations -/

def isRoot (theString theParent : String) : Bool :=
  -- a struct class is never a root
  if theString.toList.head? = some '=' then false
  else (g.theMOMRepository.myMOMRootMap.lookup (MOMRootRepository.rootKey theString theParent)).isSome

def isSingletonRoot (theString theParent : String) : Bool :=
  if theString.toList.head? = some '=' then false
  -- the top of the tree
  else if theParent = "" then true
  else if !MOMRootRepository.isSplitImmDn
      (beforeEqual theParent ++ CONTAINMENT_SEPARATOR ++ beforeEqual theString)
      g.theMOMRepository.containmentSplitImmDnAttributes then false
  else (g.theMOMRepository.myMOMRootMap.lookup (MOMRootRepository.rootKey theString theParent)).isSome

def isDecorated (theRootName theParent : String) : Bool :=
  if '=' ∉ theRootName.toList then false
  else
    (String.ofList (beforeDot (removeEqualSignAndDotPartOfDN theParent).toList) ++ "_" ++
      String.ofList (beforeDot (removeEqualSignAndDotPartOfDN theRootName).toList))
      ∈ g.registeredParentMOCWithMOMVALUESet

def findDecoratedClassName (immRootName : String) : String :=
  (g.registeredDecoratedIMMKeyAttributes.lookup (trimmed immRootName)).getD ""

/-- The class in a name, as `FindDecorationForMOMDN` takes it: a `.` cuts wherever it stands. -/
def classUpToDot (s : String) : String :=
  if '.' ∈ s.toList then String.ofList (beforeDot s.toList) else beforeEqual s

def findDecorationForMOMDN (rootDN parent_rootDN : String) : String :=
  let className := classUpToDot rootDN
  let searchKey := classUpToDot parent_rootDN ++ "_" ++ className
  let decorated := (g.findDecoratedClassName
    ((g.getMOMRepo searchKey).getDecoratedKeyAttributeForClass className)).toList
  -- `substr(0, npos)` is the whole string
  String.ofList (decorated.take ((rfind className.toList decorated).getD decorated.length))

end Registry

/-! ## Single parts -/

def convert3GPPNameFragmentToImmNameFragment (the3GPPString : String) : String :=
  if dotInClass the3GPPString then afterDot the3GPPString
  else if '=' ∈ the3GPPString.toList then
    if beforeEqual the3GPPString = STRUCT_CLASS_KEY_ATTRIBUTE ∨ beforeEqual the3GPPString = "Id" then
      lowerFirst the3GPPString
    else
      lowerFirst (beforeEqual the3GPPString) ++ "Id" ++ fromEqual the3GPPString
  else the3GPPString

def convert3GPPNameFragmentWithRepo (the3GPPString : String) (momRepository : OamSAKeyMOMRepo) : String :=
  -- `substr(npos)` throws, and the string is left as it is
  if '=' ∉ the3GPPString.toList then the3GPPString
  else if dotInClass the3GPPString then afterDot the3GPPString
  else
    let theString := removeEqualSignAndDotPartOfDN the3GPPString
    let valueString := fromEqual the3GPPString
    if convertToLowerCase theString = STRUCT_CLASS_KEY_ATTRIBUTE then lowerFirst theString ++ valueString
    else if momRepository.classNameInMOM theString then
      momRepository.getKeyAttributeForClass theString ++ valueString
    -- no key attribute: the value is not put back
    else theString

/-! ## The walk -/

/-- What the loop knows about the MOM it is in. The iterators are lists from the last part up. -/
structure WalkState where
  theRootName : String := ""
  theParent : String := ""
  theIterRoot : List String := []
  theIterParent : List String := []
  /-- `NULL` until a MOM is found, and not read before that. -/
  momKeyRep : OamSAKeyMOMRepo := {}
  useTheOldMethod : Bool := false
  deriving DecidableEq, Repr

section Walk
variable (g : Registry)

def nextRoot : List String → List String → WalkState → WalkState
  | [], theIterParent, m => { m with theIterRoot := [], theIterParent }
  | root :: below, parent :: above, m =>
    if g.isRoot root parent then
      { m with theRootName := root, theParent := parent, theIterRoot := below, theIterParent := above }
    else nextRoot below above m
  | root :: below, [], m =>
    { m with theRootName := root, theParent := "", theIterRoot := root :: below, theIterParent := [] }

/-- The first step. Without a part above, it takes the last part of the whole name. -/
def findRoot (mo_name : List String) (m : WalkState) : WalkState :=
  if m.theIterParent ≠ [] then nextRoot g m.theIterRoot m.theIterParent m
  else { m with theRootName := mo_name.headD "", theParent := "" }

/-- The second step. The flag is not taken back, and the key repository stays. -/
def findKeyRepo (m : WalkState) : WalkState :=
  let searchKey := removeEqualSignAndDotPartOfDN m.theParent ++ "_" ++
    removeEqualSignAndDotPartOfDN m.theRootName
  if g.momNameExist searchKey then { m with momKeyRep := g.getMOMRepo searchKey }
  else { m with useTheOldMethod := true }

def immFragment (theOuter : String) (above : List String) (m : WalkState) : String :=
  let searchKey := removeEqualSignAndDotPartOfDN (above.headD "") ++ "_" ++
    removeEqualSignAndDotPartOfDN theOuter
  let theTempString :=
    if m.useTheOldMethod then convert3GPPNameFragmentToImmNameFragment theOuter
    else convert3GPPNameFragmentWithRepo theOuter m.momKeyRep
  if g.momNameExist searchKey && g.isDecorated m.theRootName m.theParent then
    g.findDecorationForMOMDN m.theRootName m.theParent ++ theTempString
  else theTempString

def translateParts (mo_name : List String) : List String → WalkState → String → String
  | [], _, imm_name => imm_name
  | theOuter :: above, m, imm_name =>
    let theTempString := immFragment g theOuter above m
    let imm_name := imm_name ++ theTempString
    let imm_name :=
      if theTempString ≠ "" ∧ m.theRootName ≠ theOuter then imm_name ++ "," else imm_name
    if m.theRootName = theOuter then
      if g.isSingletonRoot m.theRootName m.theParent then imm_name
      else
        let imm_name := if theTempString ≠ "" then imm_name ++ "," else imm_name
        translateParts mo_name above (findKeyRepo g (findRoot g mo_name m)) imm_name
    else translateParts mo_name above m imm_name

def eraseLastComma (s : String) : String :=
  if s.toList.getLast? = some ',' then String.ofList s.toList.dropLast else s

def MO2Imm_DN (mo_name : List String) : String :=
  let parts := mo_name.reverse
  let m : WalkState := { theIterRoot := parts, theIterParent := parts.tail }
  eraseLastComma (translateParts g parts parts (findKeyRepo g (findRoot g parts m)) "")

end Walk

end ComSA.Translator
