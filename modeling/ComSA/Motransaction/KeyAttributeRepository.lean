import ComSA.Lib.SortedMap
import ComSA.Motransaction.MO2ImmDn

/-!
# The key attributes of a MOM

A repository maps the classes of a MOM to their key attributes. The key holder has one
repository for each parent of a root class, under the joined names. `keys` is what it
says: which classes a search key knows, and their key attributes.
-/

namespace ComSA.Translator

open SortedMap

structure KeyMOMRepo extends OamSAKeyMOMRepo where
  rootClassName : String := ""
  classNameMap : List (String × String) := []
  momDecorated : Bool := false
  momName : String := ""
  deriving DecidableEq, Repr

namespace KeyMOMRepo

variable (m : KeyMOMRepo)

def setRootClass (RootClassName : String) : KeyMOMRepo := { m with rootClassName := RootClassName }

def setMomName (mom_Name : String) : KeyMOMRepo := { m with momName := mom_Name }

def setMomIsDecoratedFlag : KeyMOMRepo := { m with momDecorated := true }

def setKeyAttributeForClass (ClassName KeyAttributeName : String) : KeyMOMRepo :=
  if m.classNameInMOM ClassName then m
  else { m with
    keyAttributeMap := put ClassName (KeyAttributeName, "") m.keyAttributeMap
    classNameMap := put KeyAttributeName ClassName m.classNameMap }

def setDecoratedKeyAttributeForClass (ClassName DecoratedKeyAttributeName : String) : KeyMOMRepo :=
  match get? ClassName m.keyAttributeMap with
  | none => m
  | some theResult => { m with
      keyAttributeMap := put ClassName (theResult.1, DecoratedKeyAttributeName) m.keyAttributeMap
      classNameMap := put DecoratedKeyAttributeName ClassName m.classNameMap }

def getClassNameForKeyAttribute (keyAttribute : String) : String := (get? keyAttribute m.classNameMap).getD ""

def key (ClassName : String) : Option String := (get? ClassName m.keyAttributeMap).map Prod.fst

variable {m}

@[simp] theorem key_setRootClass (name : String) : (m.setRootClass name).key = m.key := rfl

@[simp] theorem key_setMomName (name : String) : (m.setMomName name).key = m.key := rfl

@[simp] theorem key_setMomIsDecoratedFlag : m.setMomIsDecoratedFlag.key = m.key := rfl

theorem getKeyAttributeForClass_eq (name : String) : m.getKeyAttributeForClass name = (m.key name).getD "" := by
  rw [OamSAKeyMOMRepo.getKeyAttributeForClass, key, get?_eq_lookup]
  cases m.keyAttributeMap.lookup name <;> rfl

theorem key_of_classNameInMOM {name : String} (h : m.classNameInMOM name = true) : m.key name ≠ none := by
  intro hkey
  rw [OamSAKeyMOMRepo.classNameInMOM, getKeyAttributeForClass_eq, hkey] at h
  exact absurd rfl (bne_iff_ne.mp h)

theorem key_setKeyAttributeForClass (className keyAttribute name : String) :
    (m.setKeyAttributeForClass className keyAttribute).key name = m.key name ∧
        (name = className → m.key name ≠ none) ∨
      name = className ∧ (m.setKeyAttributeForClass className keyAttribute).key name = some keyAttribute := by
  unfold setKeyAttributeForClass
  split <;> rename_i hin
  · refine Or.inl ⟨rfl, ?_⟩
    rintro rfl
    exact key_of_classNameInMOM hin
  · unfold key
    rw [get?_put]
    split <;> rename_i hname
    · exact Or.inr ⟨hname, rfl⟩
    · exact Or.inl ⟨rfl, fun h => absurd h hname⟩

@[simp] theorem key_setDecoratedKeyAttributeForClass (className decorated : String) :
    (m.setDecoratedKeyAttributeForClass className decorated).key = m.key := by
  funext name
  unfold setDecoratedKeyAttributeForClass
  split <;> rename_i hget
  · rfl
  · unfold key
    rw [get?_put]
    split <;> rename_i hname
    · rw [hname, hget]
      rfl
    · rfl

end KeyMOMRepo

structure OamSAKeyAttributeRepository where
  momOamSAKeyMOMRepoMAP : List (String × KeyMOMRepo) := []
  /-- The search key of a MOM whose root class has this key attribute in IMM. -/
  momOamSAKeyMOMRepoMAP_immKey : List (String × String) := []
  emptyMOM : KeyMOMRepo := {}
  deriving DecidableEq, Repr

namespace OamSAKeyAttributeRepository

variable (holder : OamSAKeyAttributeRepository)

def momNameExist (parentClass_rootClass : String) : Bool :=
  (get? parentClass_rootClass holder.momOamSAKeyMOMRepoMAP).isSome

def getMOMRepo (parentClass_rootClass : String) : KeyMOMRepo :=
  (get? parentClass_rootClass holder.momOamSAKeyMOMRepoMAP).getD holder.emptyMOM

def getMOMRepoImmKey (immKeyAttribute : String) : KeyMOMRepo :=
  match get? immKeyAttribute holder.momOamSAKeyMOMRepoMAP_immKey with
  | some parentClass_rootClass => holder.getMOMRepo parentClass_rootClass
  | none => holder.emptyMOM

def changeMOMRepo (parentClass_rootClass : String) (f : KeyMOMRepo → KeyMOMRepo) :
    OamSAKeyAttributeRepository :=
  match get? parentClass_rootClass holder.momOamSAKeyMOMRepoMAP with
  | none => { holder with emptyMOM := f holder.emptyMOM }
  | some m => { holder with
      momOamSAKeyMOMRepoMAP := put parentClass_rootClass (f m) holder.momOamSAKeyMOMRepoMAP }

def setMOMRepo (parentClass_rootClass : String) : Option OamSAKeyAttributeRepository :=
  if holder.momNameExist parentClass_rootClass then none
  else some { holder with
    momOamSAKeyMOMRepoMAP := put parentClass_rootClass {} holder.momOamSAKeyMOMRepoMAP }

def setMOMRepoKeyAttribute (immKeyAttribute parentClass_rootClass : String) : OamSAKeyAttributeRepository :=
  if holder.momNameExist parentClass_rootClass then { holder with
    momOamSAKeyMOMRepoMAP_immKey := put immKeyAttribute parentClass_rootClass holder.momOamSAKeyMOMRepoMAP_immKey }
  else holder

def keys (searchKey : String) : Option (String → Option String) :=
  (get? searchKey holder.momOamSAKeyMOMRepoMAP).map KeyMOMRepo.key

variable {holder}

theorem momNameExist_iff {searchKey : String} :
    holder.momNameExist searchKey = true ↔ holder.keys searchKey ≠ none := by
  unfold momNameExist keys
  cases get? searchKey holder.momOamSAKeyMOMRepoMAP <;> simp

theorem key_getMOMRepo {searchKey : String} {known : String → Option String}
    (h : holder.keys searchKey = some known) : (holder.getMOMRepo searchKey).key = known := by
  obtain ⟨m, hm, rfl⟩ := Option.map_eq_some_iff.mp h
  unfold getMOMRepo
  rw [hm, Option.getD_some]

@[simp] theorem map_setMOMRepoKeyAttribute (immKey searchKey : String) :
    (holder.setMOMRepoKeyAttribute immKey searchKey).momOamSAKeyMOMRepoMAP = holder.momOamSAKeyMOMRepoMAP := by
  unfold setMOMRepoKeyAttribute
  split <;> rfl

@[simp] theorem keys_setMOMRepoKeyAttribute (immKey searchKey : String) :
    (holder.setMOMRepoKeyAttribute immKey searchKey).keys = holder.keys := by
  unfold keys
  rw [map_setMOMRepoKeyAttribute]

theorem keys_setMOMRepo {holder' : OamSAKeyAttributeRepository} {searchKey : String}
    (h : holder.setMOMRepo searchKey = some holder') :
    holder.keys searchKey = none ∧ get? searchKey holder'.momOamSAKeyMOMRepoMAP = some {} ∧
      ∀ other, other ≠ searchKey → holder'.keys other = holder.keys other := by
  unfold setMOMRepo at h
  split at h <;> rename_i hthere
  · cases h
  · obtain rfl := Option.some.inj h
    refine ⟨by simpa [momNameExist_iff] using hthere, by rw [get?_put, if_pos rfl], fun other hother => ?_⟩
    unfold keys
    rw [get?_put, if_neg hother]

theorem setMOMRepo_ne_none {searchKey : String} (h : holder.keys searchKey = none) :
    holder.setMOMRepo searchKey ≠ none := by
  unfold setMOMRepo
  rw [if_neg (by rw [momNameExist_iff]; exact not_not.mpr h)]
  exact Option.some_ne_none _

theorem keys_changeMOMRepo {f : KeyMOMRepo → KeyMOMRepo} {searchKey : String} {m : KeyMOMRepo}
    (h : get? searchKey holder.momOamSAKeyMOMRepoMAP = some m) (other : String) :
    (holder.changeMOMRepo searchKey f).keys other =
      if other = searchKey then some (f m).key else holder.keys other := by
  unfold changeMOMRepo keys
  rw [h]
  dsimp only
  rw [get?_put]
  split <;> rfl

theorem keys_changeMOMRepo_of_key {f : KeyMOMRepo → KeyMOMRepo} (hf : ∀ m, (f m).key = m.key)
    (searchKey : String) : (holder.changeMOMRepo searchKey f).keys = holder.keys := by
  funext other
  cases h : get? searchKey holder.momOamSAKeyMOMRepoMAP with
  | none =>
    unfold changeMOMRepo
    rw [h]
    rfl
  | some m =>
    rw [keys_changeMOMRepo h, hf]
    split <;> rename_i hother
    · unfold keys
      rw [hother, h]
      rfl
    · rfl

end OamSAKeyAttributeRepository

end ComSA.Translator
