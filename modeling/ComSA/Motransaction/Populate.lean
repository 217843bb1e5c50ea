import Mathlib.Logic.Relation
import ComSA.Lib.PartialFold
import ComSA.Motransaction.KeyHolder

/-!
# Populating the repositories

`Populate_V4` with all that it fills: the map of roots, the containments that split the
DN and the key holder. A look-up in an empty map populates first, so that `Populate_V4`
can come to be called from within itself.
-/

namespace ComSA.Translator

open SortedMap

structure SplitImmDnAttributes where
  valid : Bool := false
  childMocMomName : String := ""
  deriving DecidableEq, Repr

structure RootRepository extends MOMRootRepository where
  splitImmDnAttributes : List (String × SplitImmDnAttributes) := []
  theKeyHolder : OamSAKeyAttributeRepository := {}
  deriving DecidableEq, Repr

namespace RootRepository

def insert (key : String) (den : MOMRootDataEntry) (r : RootRepository) : RootRepository :=
  { r with toMOMRootRepository := r.toMOMRootRepository.insert key den }

def setInvalid (contName : String) (r : RootRepository) : RootRepository :=
  let attributes := (get? contName r.splitImmDnAttributes).getD {}
  { r with splitImmDnAttributes := put contName { attributes with valid := false } r.splitImmDnAttributes }

variable (M : Model)

/-- Goes up by the first parents; whether no class on the way has more than one parent. -/
def oneParentEach : Nat → MocHandle → Option Bool
  | 0, _ => none
  | fuel + 1, h =>
    match M.parentContainments h with
    | [] => some true
    | [k] => oneParentEach fuel k.parentMoc
    | _ :: _ :: _ => some false

def checkContainmentValid_V4 (fuel : Nat) (k : Containment) (r : RootRepository) : Option RootRepository :=
  (oneParentEach M fuel k.parentMoc).map fun valid => if valid then r else r.setInvalid k.name

def noteContainment (k : Containment) (r : RootRepository) : RootRepository :=
  let mom := M.momOf k.childMoc
  let childMocMomName := if mom.immNamespace = some DN_VALUE_MOM_NAME then mom.name else ""
  { r with
    containmentSplitImmDnAttributes := (k.name, MOMRootRepository.splitValue M k) ::
      r.containmentSplitImmDnAttributes
    splitImmDnAttributes := put k.name ⟨true, childMocMomName⟩ r.splitImmDnAttributes }

def isSplitImmDn (populate : RootRepository → Option RootRepository) (parentClass_rootClass : String)
    (r : RootRepository) : Option (Bool × RootRepository) := do
  -- the entry is looked for before the map is populated, and read afterwards
  let found := (r.containmentSplitImmDnAttributes.lookup (splitKey parentClass_rootClass)).isSome
  let r ← if r.myMOMRootMap = [] then populate r else some r
  some (!found || MOMRootRepository.isSplitImmDn parentClass_rootClass r.containmentSplitImmDnAttributes, r)

def visitContainment (populate : RootRepository → Option RootRepository) (fuel : Nat) (k : Containment)
    (r : RootRepository) : Option RootRepository := do
  let (split, r) ← isSplitImmDn populate k.name (noteContainment M k r)
  if split then checkContainmentValid_V4 M fuel k r else some r

def loopContainmentClass_V4 (populate : RootRepository → Option RootRepository) :
    Nat → Containment → MOMRootDataEntry → RootRepository → Option (MOMRootDataEntry × RootRepository)
  | 0, _, _, _ => none
  | fuel + 1, k, den, r => do
    let r ← visitContainment M populate (fuel + 1) k r
    let den := den ++ [afterDot (M.moc k.parentMoc).name]
    match (M.parentContainments k.parentMoc).head? with
    | none => some (den, r)
    | some next => loopContainmentClass_V4 populate fuel next den r

def decorateKeys (h : MocHandle) (parentRootName : String) (theKeyHolder : OamSAKeyAttributeRepository) :
    OamSAKeyAttributeRepository :=
  let momMOCname := (M.moc h).name
  let newKeyAtribute := (M.momOf h).name ++ (M.moc h).keyAttribute.getD ""
  let parent_rootName := parentRootName ++ "_" ++ momMOCname
  let theKeyHolder := theKeyHolder.changeMOMRepo parent_rootName fun momKeyRepo =>
    momKeyRepo.setMomIsDecoratedFlag.setDecoratedKeyAttributeForClass momMOCname newKeyAtribute
  theKeyHolder.setMOMRepoKeyAttribute newKeyAtribute parent_rootName

def getDecoratedRootClasses_V4 (populate : RootRepository → Option RootRepository) (h : MocHandle)
    (den : MOMRootDataEntry) (r : RootRepository) : Option (Bool × RootRepository) :=
  if (M.momOf h).immNamespace = some DN_VALUE_MOM_NAME then do
    let (split, r) ← isSplitImmDn populate (den.GetParentName ++ CONTAINMENT_SEPARATOR ++ (M.moc h).name) r
    let r := if split then r.insert ((M.momOf h).name ++ (M.moc h).name) den else r
    some (true, { r with theKeyHolder := decorateKeys M h den.GetParentName r.theKeyHolder })
  else
    some (false, r)

def populateParent (populate : RootRepository → Option RootRepository) (fuel : Nat) (h : MocHandle)
    (r : RootRepository) (k : Containment) : Option RootRepository := do
  let (entry, r) ← loopContainmentClass_V4 M populate fuel k [] r
  let (decorated, r) ← getDecoratedRootClasses_V4 M populate h entry r
  let r := if decorated then r else r.insert (M.moc h).name entry
  if M.sameMom_V4 k.parentMoc (M.momOf h).name then
    some r
  else
    some (r.insert (entry.GetParentName ++ (M.moc h).name) entry)

def populateClass (populate : RootRepository → Option RootRepository) (fuel : Nat) (h : MocHandle)
    (r : RootRepository) : Option RootRepository :=
  if M.IsMocChildofEcimContribution_V4 h then do
    let theKeyHolder ← M.populateKeyHolderWithMOM_V4 fuel h r.theKeyHolder
    let r := { r with theKeyHolder := theKeyHolder }
    if (M.moc h).keyAttribute.isSome then
      match M.parentContainments h with
      | [] => some (r.insert (M.moc h).name [])
      | ks => ks.foldlM (populateParent M populate fuel h) r
    else
      some r
  else
    some r

def Populate_loopRootClasses_V4 (populate : RootRepository → Option RootRepository) :
    Nat → MocHandle → RootRepository → Option RootRepository
  | 0, _, _ => none
  | fuel + 1, h, r => do
    let r ← populateClass M populate fuel h r
    (M.childContainments h).foldlM (fun r k =>
      if h ≠ k.childMoc then Populate_loopRootClasses_V4 populate fuel k.childMoc r else some r) r

/-- Whether two containments put one class of a MOM below two parents and both split the DN. -/
def bothSplit (r : RootRepository) (name name' : String) : Bool :=
  match splitAtSeparator name.toList, splitAtSeparator name'.toList with
  | some (parent, child), some (parent', child') =>
    let momName := fun n => ((get? n r.splitImmDnAttributes).getD {}).childMocMomName
    child == child' && parent != parent' && momName name == momName name' &&
      (r.containmentSplitImmDnAttributes.lookup name).getD false &&
      (r.containmentSplitImmDnAttributes.lookup name').getD false
  | _, _ => false

/-- Goes through the pairs of containments in the order of the map. -/
def checkModelValid (r : RootRepository) : RootRepository :=
  let pairs := (r.splitImmDnAttributes.map Prod.fst).tails.flatMap fun
    | [] => []
    | name :: names => names.map fun name' => (name, name')
  pairs.foldl (fun r p => if bothSplit r p.1 p.2 then (r.setInvalid p.1).setInvalid p.2 else r) r

theorem checkModelValid_eq {β : Type*} (π : RootRepository → β) (hπ : ∀ contName r, π (setInvalid contName r) = π r)
    {r : RootRepository} : π (checkModelValid r) = π r := by
  unfold checkModelValid
  generalize (List.flatMap _ _ : List (String × String)) = pairs
  induction pairs generalizing r with
  | nil => rfl
  | cons p pairs ih =>
    rw [List.foldl_cons, ih]
    split
    · rw [hπ, hπ]
    · rfl

def Populate_V4 : Nat → RootRepository → Option RootRepository
  | 0, _ => none
  | fuel + 1, r =>
    (Populate_loopRootClasses_V4 M (fun r => Populate_V4 fuel r) fuel M.root r).map checkModelValid

end RootRepository

/-! ## The walk down the containments -/

namespace Model

variable (M : Model)

def Contains (h h' : MocHandle) : Prop := ∃ k ∈ M.childContainments h, k.childMoc = h'

abbrev Below (h c : MocHandle) : Prop := Relation.ReflTransGen M.Contains h c

/-- The classes of the model: those that its root contains. -/
def IsClass (c : MocHandle) : Prop := M.Below M.root c

end Model

namespace RootRepository

section
variable {M : Model} {populate : RootRepository → Option RootRepository} {I P : RootRepository → Prop}
  {h : MocHandle}

theorem loopRootClasses_keeps
    (hclass : ∀ c, M.Below h c → ∀ fuel r r', I r → populateClass M populate fuel c r = some r' → I r')
    {fuel : Nat} {r r' : RootRepository} (hr : I r)
    (hloop : Populate_loopRootClasses_V4 M populate fuel h r = some r') : I r' := by
  induction fuel generalizing h r r' with
  | zero => cases hloop
  | succ fuel ih =>
    rw [Populate_loopRootClasses_V4] at hloop
    obtain ⟨t, ht, hchildren⟩ := Option.bind_eq_some_iff.mp hloop
    refine foldlM_keeps (fun k hk s s' hs hstep => ?_) (hclass h .refl fuel r t hr ht) hchildren
    split at hstep
    · exact ih (fun c hc => hclass c (.head ⟨k, hk, rfl⟩ hc)) hs hstep
    · obtain rfl := Option.some.inj hstep
      exact hs

theorem loopRootClasses_keeps_both
    (hclass : ∀ c, M.Below h c → ∀ fuel r r', I r → populateClass M populate fuel c r = some r' → I r')
    (hkeep : ∀ c, M.Below h c → ∀ fuel r r', I r → P r → populateClass M populate fuel c r = some r' → P r')
    {fuel : Nat} {r r' : RootRepository} (hr : I r ∧ P r)
    (hloop : Populate_loopRootClasses_V4 M populate fuel h r = some r') : I r' ∧ P r' :=
  loopRootClasses_keeps (I := fun r => I r ∧ P r) (fun c hc fuel r r' hr hstep =>
    ⟨hclass c hc fuel r r' hr.1 hstep, hkeep c hc fuel r r' hr.1 hr.2 hstep⟩) hr hloop

theorem loopRootClasses_reaches
    (hclass : ∀ c, M.Below h c → ∀ fuel r r', I r → populateClass M populate fuel c r = some r' → I r')
    (hkeep : ∀ c, M.Below h c → ∀ fuel r r', I r → P r → populateClass M populate fuel c r = some r' → P r')
    {c : MocHandle} (hc : M.Below h c)
    (hreach : ∀ fuel r r', I r → populateClass M populate fuel c r = some r' → P r')
    {fuel : Nat} {r r' : RootRepository} (hr : I r)
    (hloop : Populate_loopRootClasses_V4 M populate fuel h r = some r') : P r' := by
  induction hc using Relation.ReflTransGen.head_induction_on generalizing fuel r r' with
  | refl =>
    cases fuel with
    | zero => cases hloop
    | succ fuel =>
      rw [Populate_loopRootClasses_V4] at hloop
      obtain ⟨t, ht, hchildren⟩ := Option.bind_eq_some_iff.mp hloop
      have hboth : I t ∧ P t := ⟨hclass c .refl fuel r t hr ht, hreach fuel r t hr ht⟩
      refine (foldlM_keeps (I := fun r => I r ∧ P r) (fun k hk s s' hs hstep => ?_) hboth hchildren).2
      split at hstep
      · exact loopRootClasses_keeps_both (fun d hd => hclass d (.head ⟨k, hk, rfl⟩ hd))
          (fun d hd => hkeep d (.head ⟨k, hk, rfl⟩ hd)) hs hstep
      · obtain rfl := Option.some.inj hstep
        exact hs
  | @head a b hab hbc ih =>
    have hclass' : ∀ c, M.Below b c → ∀ fuel r r', I r → populateClass M populate fuel c r = some r' → I r' :=
      fun c hc => hclass c (.head hab hc)
    have hkeep' : ∀ c, M.Below b c → ∀ fuel r r', I r → P r → populateClass M populate fuel c r = some r' → P r' :=
      fun c hc => hkeep c (.head hab hc)
    obtain ⟨k, hk, rfl⟩ := hab
    by_cases hself : a = k.childMoc
    · subst hself
      exact ih hclass' hkeep' hr hloop
    cases fuel with
    | zero => cases hloop
    | succ fuel =>
      rw [Populate_loopRootClasses_V4] at hloop
      obtain ⟨t, ht, hchildren⟩ := Option.bind_eq_some_iff.mp hloop
      refine foldlM_reaches hk (fun j hj s s' hs hstep => ?_) (fun s s' hs hstep => ?_)
        (fun j hj s s' hs hP hstep => ?_) (hclass a .refl fuel r t hr ht) hchildren
      · split at hstep
        · exact loopRootClasses_keeps (fun d hd => hclass d (.head ⟨j, hj, rfl⟩ hd)) hs hstep
        · obtain rfl := Option.some.inj hstep
          exact hs
      · rw [if_pos hself] at hstep
        exact ih hclass' hkeep' hs hstep
      · split at hstep
        · exact (loopRootClasses_keeps_both (fun d hd => hclass d (.head ⟨j, hj, rfl⟩ hd))
            (fun d hd => hkeep d (.head ⟨j, hj, rfl⟩ hd)) ⟨hs, hP⟩ hstep).2
        · obtain rfl := Option.some.inj hstep
          exact hP

end

end RootRepository

end ComSA.Translator
