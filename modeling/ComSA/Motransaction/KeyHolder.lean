import ComSA.Motransaction.KeyAttributeRepository
import ComSA.Motransaction.MOMRootRepository

/-!
# Filling the key holder

For each parent of a root class the key holder gets a repository of the classes of the
MOM. A walk down the containments collects them: it goes into a class of the same MOM
where its name is not that of the class above. Which attributes are notifiable is left out.
-/

namespace ComSA.Translator

namespace Model

variable (M : Model)

def getMocParents_V4 (h : MocHandle) : List String :=
  match M.parentContainments h with
  | [] => [""]
  | ks => ks.map fun k => (M.moc k.parentMoc).name

def getMocNameAndKey_V4 (h : MocHandle) (momName : Option String) : Option (String × String) :=
  if momName.all (M.sameMom_V4 h) then (M.moc h).keyAttribute.map fun keyAttribute => ((M.moc h).name, keyAttribute)
  else none

def RetriveMomClassesAndKeyAttributes_V4 (momName : String) :
    Nat → MocHandle → String → KeyMOMRepo → Option KeyMOMRepo
  | 0, _, _, _ => none
  | fuel + 1, h, previousClassName, momKeyRepo =>
    (M.childContainments h).foldlM (fun momKeyRepo k =>
      match M.getMocNameAndKey_V4 k.childMoc (some momName) with
      | none => some momKeyRepo
      | some (className, keyAttribute) =>
        let momKeyRepo := momKeyRepo.setKeyAttributeForClass className keyAttribute
        if className ≠ previousClassName then
          RetriveMomClassesAndKeyAttributes_V4 momName fuel k.childMoc className momKeyRepo
        else
          some momKeyRepo) momKeyRepo

def fillMOMRepo (fuel : Nat) (h : MocHandle) (classNameRoot keyAttributeRoot : String)
    (momKeyRepo : KeyMOMRepo) : Option KeyMOMRepo :=
  let momKeyRepo := (momKeyRepo.setKeyAttributeForClass classNameRoot keyAttributeRoot).setRootClass classNameRoot
  let momKeyRepo := momKeyRepo.setMomName (M.momOf h).name
  M.RetriveMomClassesAndKeyAttributes_V4 (M.momOf h).name fuel h classNameRoot momKeyRepo

def populateParents (fuel : Nat) (h : MocHandle) (classNameRoot keyAttributeRoot : String) :
    List String → OamSAKeyAttributeRepository → Option OamSAKeyAttributeRepository
  | [], theKeyHolder => some theKeyHolder
  | parent :: theMocParentsList, theKeyHolder =>
    let searchKey := parent ++ "_" ++ classNameRoot
    match theKeyHolder.setMOMRepo searchKey with
    -- an entry that exists already ends the loop
    | none => some theKeyHolder
    | some theKeyHolder => do
      let theKeyHolder := theKeyHolder.setMOMRepoKeyAttribute keyAttributeRoot searchKey
      let momKeyRepo ← M.fillMOMRepo fuel h classNameRoot keyAttributeRoot (theKeyHolder.getMOMRepo searchKey)
      populateParents fuel h classNameRoot keyAttributeRoot theMocParentsList
        (theKeyHolder.changeMOMRepo searchKey fun _ => momKeyRepo)

def populateKeyHolderWithMOM_V4 (fuel : Nat) (h : MocHandle) (theKeyHolder : OamSAKeyAttributeRepository) :
    Option OamSAKeyAttributeRepository :=
  match M.getMocNameAndKey_V4 h none with
  | none => some theKeyHolder
  | some (classNameRoot, keyAttributeRoot) =>
    M.populateParents fuel h classNameRoot keyAttributeRoot (M.getMocParents_V4 h) theKeyHolder

end Model

end ComSA.Translator
