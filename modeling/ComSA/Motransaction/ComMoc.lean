import ComSA.Motransaction.Populate

/-!
# The class of a managed object

`GetComMocAndMom` looks for the class that a DN leads to. It takes the last root class of the DN, looks for that class
in the whole model, and goes down from there by the names that are left.
-/

namespace ComSA.Translator

structure ComModel extends Model where
  containmentMom : Containment → MomHandle

/-- What is written where `theMoc_pp` and `theMom_pp` point to. `NULL` is `none`. -/
structure MocAndMom where
  theMoc : Option MocHandle
  theMom : Option MomHandle
  deriving DecidableEq, Repr

abbrev convertDnToClass (dnName : String) : String := trimmed dnName

/-- The last root class of a DN, and what stands before it. `parent` is what stands before the first name. -/
def lastRoot (isRoot : String → String → Option Bool) :
    String → Option (String × String) → List String → Option (Option (String × String))
  | _, found, [] => some found
  | parent, found, name :: names => do
    let root ← isRoot name parent
    lastRoot isRoot name (if root then some (name, parent) else found) names

namespace ComModel

variable (M : ComModel)

def IsMocChildofEcimContribution_V1 (h : MocHandle) : Bool :=
  (M.moc h).isRoot || (M.parentContainments h).any fun k => (M.momOf k.parentMoc).name ≠ (M.momOf h).name

def getParentName (h : MocHandle) : List String :=
  ((M.parentContainments h).map fun k => (M.moc k.parentMoc).name).filter (· ≠ "")

def theMocParentList (h : MocHandle) : List String := if M.getParentName h = [] then [""] else M.getParentName h

def className (h : MocHandle) : String := afterDot (M.moc h).name

def Matches (parentName className : String) (h : MocHandle) : Prop :=
  M.IsMocChildofEcimContribution_V1 h = true ∧ M.className h = className ∧ parentName ∈ M.theMocParentList h

instance (parentName className : String) (h : MocHandle) : Decidable (M.Matches parentName className h) :=
  inferInstanceAs (Decidable (_ ∧ _))

def findChild (h : MocHandle) (name : String) : Option Containment :=
  (M.childContainments h).find? fun k => M.className k.childMoc = convertDnToClass name

/-- Goes down the model by the names, until the chain is at its end or broken. -/
def chew : MocHandle → String → List String → MocAndMom
  | h, name, names =>
    match M.findChild h name with
    | none => ⟨none, none⟩
    | some k =>
      match names with
      | [] => ⟨some k.childMoc, some (M.containmentMom k)⟩
      | next :: names => chew k.childMoc next names

def fromRoot (h : MocHandle) : List String → MocAndMom
  | [] => ⟨some h, some (M.moc h).mom⟩
  | name :: names =>
    -- the MOM stays where the class has no children at all
    if M.childContainments h = [] then ⟨none, some (M.moc h).mom⟩ else M.chew h name names

def behind (className : String) (mo_name : List String) : List String :=
  (mo_name.dropWhile fun name => convertDnToClass name ≠ className).tail

/-- The search goes on in the siblings after it has found something, and what is found last is kept. The outer `none`
is that it does not end, and the inner one that nothing was written. -/
def GetComMocAndMom_loopRootClasses (mo_name : List String) (parentName className : String) :
    Nat → MocHandle → Option MocAndMom → Option (Option MocAndMom)
  | 0, _, _ => none
  | fuel + 1, h, out =>
    if M.Matches parentName className h then some (some (M.fromRoot h (behind className mo_name)))
    else
      (M.childContainments h).foldlM (fun out k =>
        if k.childMoc ≠ h then
          GetComMocAndMom_loopRootClasses mo_name parentName className fuel k.childMoc out
        else some out) out

/-- Where the DN has no root class its end is read as if a name stood there, which is `none` as well. -/
def GetComMocAndMom (fuel : Nat) (r : MOMRootRepository) (mo_name : List String) : Option (Option MocAndMom) := do
  match ← lastRoot (fun name parent => r.IsRoot M.toModel fuel name parent) "" none mo_name with
  | none => none
  | some (name, parent) =>
    M.GetComMocAndMom_loopRootClasses mo_name (convertDnToClass parent) (convertDnToClass name) fuel M.root none

/-- The pointer that is returned. It is not initialised, so that the inner `none` may be anything. -/
def GetComMoc (fuel : Nat) (r : MOMRootRepository) (mo_name : List String) : Option (Option (Option MocHandle)) :=
  (M.GetComMocAndMom fuel r mo_name).map fun out => out.map MocAndMom.theMoc

def GetComMom (fuel : Nat) (r : MOMRootRepository) (mo_name : List String) : Option (Option (Option MomHandle)) :=
  (M.GetComMocAndMom fuel r mo_name).map fun out => out.map MocAndMom.theMom

end ComModel

end ComSA.Translator
