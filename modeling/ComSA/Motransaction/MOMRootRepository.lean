import Mathlib.Data.List.Basic

/-!
# The root classes of a model

`Populate_V4` walks the containments of a model and notes which classes start a DN of
their own in IMM. One map keeps plain names, names with the MOM's name before them and
the names of parent and child joined.
-/

namespace ComSA.Translator

abbrev MocHandle := Nat
abbrev MomHandle := Nat

def CONTAINMENT_SEPARATOR : String := "_to_"
def DN_VALUE_MOM_NAME : String := "MOM_NAME"
def DOMAIN_EXT_VALUE_TRUE : String := "true"
def DOMAIN_EXT_VALUE_FALSE : String := "false"

structure Mom where
  name : String
  immNamespace : Option String
  deriving DecidableEq, Repr

structure Moc where
  name : String
  mom : MomHandle
  isRoot : Bool
  keyAttribute : Option String
  deriving DecidableEq, Repr

structure Containment where
  name : String
  parentMoc : MocHandle
  childMoc : MocHandle
  /-- The extension `splitImmDn` of the CoreMW domain, or else of the IMM domain. -/
  splitImmDn : Option String
  deriving DecidableEq, Repr

structure Model where
  root : MocHandle
  moc : MocHandle → Moc
  mom : MomHandle → Mom
  /-- The containments with the same child, in the order they are gone through. -/
  parentContainments : MocHandle → List Containment
  childContainments : MocHandle → List Containment
  childMoc_eq : ∀ h, ∀ k ∈ parentContainments h, k.childMoc = h ∧ k ∈ childContainments k.parentMoc
  parentMoc_eq : ∀ h, ∀ k ∈ childContainments h, k.parentMoc = h ∧ k ∈ parentContainments k.childMoc

def Model.ofContainments (root : MocHandle) (moc : MocHandle → Moc) (mom : MomHandle → Mom)
    (ks : List Containment) : Model where
  root
  moc
  mom
  parentContainments h := ks.filter fun k => k.childMoc = h
  childContainments h := ks.filter fun k => k.parentMoc = h
  childMoc_eq h k hk := by
    obtain ⟨hk, hchild⟩ := List.mem_filter.mp hk
    exact ⟨of_decide_eq_true hchild, List.mem_filter.mpr ⟨hk, decide_eq_true rfl⟩⟩
  parentMoc_eq h k hk := by
    obtain ⟨hk, hparent⟩ := List.mem_filter.mp hk
    exact ⟨of_decide_eq_true hparent, List.mem_filter.mpr ⟨hk, decide_eq_true rfl⟩⟩

abbrev MOMRootDataEntry := List String

def MOMRootDataEntry.GetParentName (den : MOMRootDataEntry) : String := den.headD ""

structure MOMRootRepository where
  myMOMRootMap : List (String × MOMRootDataEntry) := []
  /-- Which containments split the DN. What was stored last is found first. -/
  containmentSplitImmDnAttributes : List (String × Bool) := []
  deriving DecidableEq, Repr

/-! ## Names -/

def trimmed (s : String) : String :=
  String.ofList ((s.toList.takeWhile (· ≠ '=')).takeWhile (· ≠ '.'))

def afterDot (s : String) : String :=
  match s.toList.dropWhile (· ≠ '.') with
  | [] => s
  | _ :: rest => String.ofList rest

def beforeDot (s : List Char) : List Char := s.takeWhile (· ≠ '.')

def splitAtSeparator : List Char → Option (List Char × List Char)
  | [] => none
  | c :: cs =>
    if CONTAINMENT_SEPARATOR.toList.isPrefixOf (c :: cs) then
      some ([], (c :: cs).drop CONTAINMENT_SEPARATOR.length)
    else
      (splitAtSeparator cs).map fun x => (c :: x.1, x.2)

def splitKey (parentClass_rootClass : String) : String :=
  let s := parentClass_rootClass.toList
  if '.' ∈ s then
    match splitAtSeparator s with
    | some (parent, child) =>
      String.ofList (beforeDot parent) ++ CONTAINMENT_SEPARATOR ++ String.ofList (beforeDot child)
    -- `npos` and the length of the separator wrap around to 3
    | none => String.ofList (beforeDot s) ++ CONTAINMENT_SEPARATOR ++ String.ofList (beforeDot (s.drop 3))
  else
    parentClass_rootClass

namespace Model

variable (M : Model)

def momOf (h : MocHandle) : Mom := M.mom (M.moc h).mom

def sameMom_V4 (h : MocHandle) (momName : String) : Bool := (M.momOf h).name == momName

def IsMocChildofEcimContribution_V4 (h : MocHandle) : Bool :=
  (M.moc h).isRoot ||
    (M.parentContainments h).any fun k => !M.sameMom_V4 k.parentMoc (M.momOf h).name

end Model

namespace MOMRootRepository

variable (M : Model)

def insert (key : String) (den : MOMRootDataEntry) (r : MOMRootRepository) : MOMRootRepository :=
  if (r.myMOMRootMap.lookup key).isSome then r
  else { r with myMOMRootMap := r.myMOMRootMap ++ [(key, den)] }

def splitValue (k : Containment) : Bool :=
  let split := !M.sameMom_V4 k.parentMoc (M.momOf k.childMoc).name
  match k.splitImmDn with
  | none => split
  | some extValue =>
    if extValue = DOMAIN_EXT_VALUE_TRUE then true
    else if extValue = DOMAIN_EXT_VALUE_FALSE then false
    else split

def isSplitImmDn (parentClass_rootClass : String) (attributes : List (String × Bool)) : Bool :=
  (attributes.lookup (splitKey parentClass_rootClass)).getD true

def loopContainmentClass_V4 :
    Nat → Containment → MOMRootDataEntry → MOMRootRepository → Option (MOMRootDataEntry × MOMRootRepository)
  | 0, _, _, _ => none
  | fuel + 1, k, den, r =>
    -- `isSplitImmDn` populates an empty map, which comes back here with the map still empty
    if r.myMOMRootMap = [] then none
    else
      let r := { r with
        containmentSplitImmDnAttributes := (k.name, splitValue M k) :: r.containmentSplitImmDnAttributes }
      let den := den ++ [afterDot (M.moc k.parentMoc).name]
      match (M.parentContainments k.parentMoc).head? with
      | none => some (den, r)
      | some next => loopContainmentClass_V4 fuel next den r

/-- Whether the MOM is decorated, and then the name with the MOM's name before it is stored where the
containment splits the DN. -/
def getDecoratedRootClasses_V4 (h : MocHandle) (den : MOMRootDataEntry) (r : MOMRootRepository) :
    Bool × MOMRootRepository :=
  if (M.momOf h).immNamespace = some DN_VALUE_MOM_NAME then
    if isSplitImmDn (den.GetParentName ++ CONTAINMENT_SEPARATOR ++ (M.moc h).name)
        r.containmentSplitImmDnAttributes then
      (true, r.insert ((M.momOf h).name ++ (M.moc h).name) den)
    else
      (true, r)
  else
    (false, r)

def populateParent (fuel : Nat) (h : MocHandle) (r : MOMRootRepository) (k : Containment) :
    Option MOMRootRepository := do
  let (entry, r) ← loopContainmentClass_V4 M fuel k [] r
  let (decorated, r) := getDecoratedRootClasses_V4 M h entry r
  let r := if decorated then r else r.insert (M.moc h).name entry
  if M.sameMom_V4 k.parentMoc (M.momOf h).name then
    some r
  else
    some (r.insert (entry.GetParentName ++ (M.moc h).name) entry)

def populateClass (fuel : Nat) (h : MocHandle) (r : MOMRootRepository) : Option MOMRootRepository :=
  if M.IsMocChildofEcimContribution_V4 h && (M.moc h).keyAttribute.isSome then
    match M.parentContainments h with
    | [] => some (r.insert (M.moc h).name [])
    | ks => ks.foldlM (populateParent M fuel h) r
  else
    some r

def Populate_loopRootClasses_V4 : Nat → MocHandle → MOMRootRepository → Option MOMRootRepository
  | 0, _, _ => none
  | fuel + 1, h, r => do
    let r ← populateClass M fuel h r
    (M.childContainments h).foldlM
      (fun r k => if h ≠ k.childMoc then Populate_loopRootClasses_V4 fuel k.childMoc r else some r) r

def Populate_V4 (fuel : Nat) (r : MOMRootRepository) : Option MOMRootRepository :=
  Populate_loopRootClasses_V4 M fuel M.root r

def rootKey (theString theParent : String) : String := trimmed theParent ++ trimmed theString

def IsRoot (fuel : Nat) (theString theParent : String) (r : MOMRootRepository) : Option Bool := do
  let r ← if r.myMOMRootMap = [] then Populate_V4 M fuel r else some r
  -- a struct class is never a root
  if theString.toList.head? = some '=' then
    some false
  else
    some (r.myMOMRootMap.lookup (rootKey theString theParent)).isSome

end MOMRootRepository

end ComSA.Translator
