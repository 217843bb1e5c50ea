import ComSA.Motransaction.NamingRule
import Mathlib.Data.List.Perm.Basic
import Mathlib.Logic.Function.Basic

/-!
# Which changes are notified

A class, or one of its attributes, is marked as notifiable in a MOM. To find it out for an object, the MOMs
are asked whose root classes are on the way down to the object. Where a MOM is decorated, its name comes
before the names of its classes in IMM.
-/

namespace ComSA.Notified

open Naming (find nextFragment nextFragment_length retriveKey lower)

/-! ## The MOMs -/

/-- A root class of a MOM below one parent, as the model repository tells it. -/
structure RegisteredMom where
  searchKey : List Char
  rootClass : List Char
  rootClass_ne : rootClass ≠ []
  keyAttribute : List Char
  momName : List Char
  decorated : Bool
  /-- The classes with their attributes that are notifiable. -/
  classAttributeNotifiableMap : List (List Char × List (List Char))
  deriving DecidableEq

structure OamSAKeyMOMRepo where
  rootClassName : List Char := []
  momDecorated : Bool := false
  momName : List Char := []
  classAttributeNotifiableMap : List (List Char × List (List Char)) := []

def isNotifiable (classAttributeNotifiableMap : List (List Char × List (List Char))) (className : List Char)
    (attrName : Option (List Char)) : Bool :=
  match classAttributeNotifiableMap.lookup className with
  | none => false
  | some attributes =>
    match attrName with
    | none => true
    | some attrName => attributes.contains attrName

structure OamSAKeyAttributeRepository where
  momOamSAKeyMOMRepoMAP : List Char → Option OamSAKeyMOMRepo := fun _ => none
  momOamSAKeyMOMRepoMAP_immKey : List Char → Option (List Char) := fun _ => none

namespace OamSAKeyAttributeRepository

def getMOMRepoImmKey (immKeyAttribute : List Char) (g : OamSAKeyAttributeRepository) : OamSAKeyMOMRepo :=
  match g.momOamSAKeyMOMRepoMAP_immKey immKeyAttribute with
  | some mom => (g.momOamSAKeyMOMRepoMAP mom).getD {}
  | none => {}

def populateKeyHolderWithMOM (e : RegisteredMom) (g : OamSAKeyAttributeRepository) : OamSAKeyAttributeRepository :=
  match g.momOamSAKeyMOMRepoMAP e.searchKey with
  | some _ => g
  | none =>
    { momOamSAKeyMOMRepoMAP := Function.update g.momOamSAKeyMOMRepoMAP e.searchKey (some
        { rootClassName := e.rootClass, momName := e.momName
          classAttributeNotifiableMap := e.classAttributeNotifiableMap })
      momOamSAKeyMOMRepoMAP_immKey :=
        Function.update g.momOamSAKeyMOMRepoMAP_immKey e.keyAttribute (some e.searchKey) }

def getDecoratedRootClasses (e : RegisteredMom) (g : OamSAKeyAttributeRepository) : OamSAKeyAttributeRepository :=
  if e.decorated then
    { momOamSAKeyMOMRepoMAP := Function.update g.momOamSAKeyMOMRepoMAP e.searchKey
        ((g.momOamSAKeyMOMRepoMAP e.searchKey).map fun momKeyRepo => { momKeyRepo with momDecorated := true })
      momOamSAKeyMOMRepoMAP_immKey :=
        Function.update g.momOamSAKeyMOMRepoMAP_immKey (e.momName ++ e.keyAttribute) (some e.searchKey) }
  else g

def Populate (moms : List RegisteredMom) : OamSAKeyAttributeRepository :=
  moms.foldl (fun g e => getDecoratedRootClasses e (populateKeyHolderWithMOM e g)) {}

end OamSAKeyAttributeRepository

/-! ## The question -/

structure NotifyEnv where
  non_root_mo_notifications : Bool
  /-- For the object of a struct and an attribute: the class that refers to it and the attribute that does.
  IMM is asked. -/
  getStructRefName : List Char → Option (List Char) → List Char × List Char

variable (env : NotifyEnv)

def isStructClassNotifiable (immRdn : List Char) (attrName : Option (List Char))
    (classAttributeNotifiableMap : List (List Char × List (List Char))) : Bool :=
  if lower (immRdn.take 2) = "id".toList then
    let structRef := env.getStructRefName immRdn attrName
    if structRef.2 = [] then false else isNotifiable classAttributeNotifiableMap structRef.1 (some structRef.2)
  else false

/-- The way up from the root. The name of the class is kept as the last decorated MOM left it. -/
def searchMoms (g : OamSAKeyAttributeRepository) (immRdn : List Char) (attrName : Option (List Char))
    (stringImmRdn imm_ClassName : List Char) : Bool :=
  if stringImmRdn = [] then false
  else
    let rootImmKey := retriveKey (nextFragment stringImmRdn).1
    if rootImmKey = [] then false
    else
      let tempRepo := g.getMOMRepoImmKey rootImmKey
      if tempRepo.rootClassName = [] then
        if env.non_root_mo_notifications then
          searchMoms g immRdn attrName (nextFragment stringImmRdn).2 imm_ClassName
        else false
      else if tempRepo.momDecorated then
        match find tempRepo.momName imm_ClassName with
        | none => searchMoms g immRdn attrName (nextFragment stringImmRdn).2 imm_ClassName
        | some _ =>
          let imm_ClassName := imm_ClassName.drop tempRepo.momName.length
          if isNotifiable tempRepo.classAttributeNotifiableMap imm_ClassName attrName ||
              isStructClassNotifiable env immRdn attrName tempRepo.classAttributeNotifiableMap then true
          else searchMoms g immRdn attrName (nextFragment stringImmRdn).2 imm_ClassName
      else if isNotifiable tempRepo.classAttributeNotifiableMap imm_ClassName attrName ||
          isStructClassNotifiable env immRdn attrName tempRepo.classAttributeNotifiableMap then true
      else searchMoms g immRdn attrName (nextFragment stringImmRdn).2 imm_ClassName
termination_by stringImmRdn.length
decreasing_by all_goals exact nextFragment_length ‹_›

def isNotified (g : OamSAKeyAttributeRepository) (immRdn immClassName : List Char) (attrName : Option (List Char)) :
    Bool :=
  searchMoms env g immRdn attrName immRdn immClassName

/-! ## What is to be answered -/

def RegisteredMom.Marks (e : RegisteredMom) (immRdn immClassName : List Char) (attrName : Option (List Char))
    : Prop :=
  ∃ className, immClassName = (if e.decorated then e.momName ++ className else className) ∧
    (isNotifiable e.classAttributeNotifiableMap className attrName = true ∨
      isStructClassNotifiable env immRdn attrName e.classAttributeNotifiableMap = true)

def RegisteredMom.immKey (e : RegisteredMom) : List Char :=
  if e.decorated then e.momName ++ e.keyAttribute else e.keyAttribute

def RegisteredMom.HasKey (e : RegisteredMom) (key : List Char) : Prop :=
  key = e.keyAttribute ∨ e.decorated = true ∧ key = e.momName ++ e.keyAttribute

instance (e : RegisteredMom) (key : List Char) : Decidable (e.HasKey key) :=
  inferInstanceAs (Decidable (key = e.keyAttribute ∨ e.decorated = true ∧ key = e.momName ++ e.keyAttribute))

/-- MOMs with different root classes, or different parents of these. -/
structure MomSet where
  moms : List RegisteredMom
  distinct : (moms.map RegisteredMom.searchKey).Nodup

def isRootKey (moms : List RegisteredMom) (key : List Char) : Bool :=
  moms.any fun e => e.HasKey key

def fragmentKeys (stringImmRdn : List Char) : List (List Char) :=
  if stringImmRdn = [] then []
  else retriveKey (nextFragment stringImmRdn).1 :: fragmentKeys (nextFragment stringImmRdn).2
termination_by stringImmRdn.length
decreasing_by exact nextFragment_length ‹_›

/-- The keys of root classes on the way down to an object. The way ends at a fragment without a key, and
unless notifications for all objects are wanted at one that is no root class. -/
def rootKeys (moms : List RegisteredMom) (immRdn : List Char) : List (List Char) :=
  ((fragmentKeys immRdn).takeWhile fun key =>
    key ≠ [] && (isRootKey moms key || env.non_root_mo_notifications)).filter
    (isRootKey moms)

def MarkedInMom (moms : List RegisteredMom) (immRdn immClassName : List Char) (attrName : Option (List Char))
    : Prop :=
  ∃ e ∈ moms, e.immKey ∈ rootKeys env moms immRdn ∧ e.Marks env immRdn immClassName attrName

/-! ## What is asked -/

/-- The MOM that a key leads to is the one registered last of those that have it. -/
def lastWith (moms : List RegisteredMom) (key : List Char) : Option RegisteredMom :=
  (moms.filter fun e => e.HasKey key).getLast?

/-- The MOMs that are found on the way down, for MOMs registered in an order. -/
def momsFound (moms : List RegisteredMom) (immRdn : List Char) : List RegisteredMom :=
  (rootKeys env moms immRdn).filterMap (lastWith moms)

/-- A MOM says yes to a name. A decorated one takes it to be in it when its own name occurs there, and then
asks for what is left without as many letters. -/
def RegisteredMom.Says (e : RegisteredMom) (immRdn : List Char) (attrName : Option (List Char))
    (imm_ClassName : List Char) : Bool :=
  if e.decorated then
    (find e.momName imm_ClassName).isSome &&
      (isNotifiable e.classAttributeNotifiableMap (imm_ClassName.drop e.momName.length) attrName ||
        isStructClassNotifiable env immRdn attrName e.classAttributeNotifiableMap)
  else isNotifiable e.classAttributeNotifiableMap imm_ClassName attrName ||
    isStructClassNotifiable env immRdn attrName e.classAttributeNotifiableMap

def RegisteredMom.nameLeft (e : RegisteredMom) (imm_ClassName : List Char) : List Char :=
  if e.decorated && (find e.momName imm_ClassName).isSome then imm_ClassName.drop e.momName.length
  else imm_ClassName

def asked : List RegisteredMom → List Char → List (RegisteredMom × List Char)
  | [], _ => []
  | e :: moms, imm_ClassName => (e, imm_ClassName) :: asked moms (e.nameLeft imm_ClassName)

section
variable {env : NotifyEnv} {moms : List RegisteredMom}

/-! ## The repositories -/

theorem lastWith_concat (e : RegisteredMom) (key : List Char) :
    lastWith (moms ++ [e]) key = if e.HasKey key then some e else lastWith moms key := by
  by_cases h : e.HasKey key <;> simp [lastWith, h]

theorem lastWith_mem {key : List Char} {e : RegisteredMom} (h : lastWith moms key = some e) :
    e ∈ moms ∧ e.HasKey key := by
  have hmem := List.mem_of_getLast? h
  rw [List.mem_filter, decide_eq_true_eq] at hmem
  exact hmem

theorem lastWith_isSome (key : List Char) : (lastWith moms key).isSome = isRootKey moms key := by
  rw [Bool.eq_iff_iff, Option.isSome_iff_ne_none, lastWith, ne_eq, List.getLast?_eq_none_iff, isRootKey]
  simp [List.filter_eq_nil_iff]

open OamSAKeyAttributeRepository

def RegisteredMom.repo (e : RegisteredMom) : OamSAKeyMOMRepo :=
  ⟨e.rootClass, e.decorated, e.momName, e.classAttributeNotifiableMap⟩

theorem register_spec {e : RegisteredMom} {g : OamSAKeyAttributeRepository}
    (h : g.momOamSAKeyMOMRepoMAP e.searchKey = none) :
    (getDecoratedRootClasses e (populateKeyHolderWithMOM e g)).momOamSAKeyMOMRepoMAP =
        Function.update g.momOamSAKeyMOMRepoMAP e.searchKey (some e.repo) ∧
      ∀ key, (getDecoratedRootClasses e (populateKeyHolderWithMOM e g)).momOamSAKeyMOMRepoMAP_immKey key =
        if e.HasKey key then some e.searchKey else g.momOamSAKeyMOMRepoMAP_immKey key := by
  have hpopulate : populateKeyHolderWithMOM e g =
      ⟨Function.update g.momOamSAKeyMOMRepoMAP e.searchKey
          (some ⟨e.rootClass, false, e.momName, e.classAttributeNotifiableMap⟩),
        Function.update g.momOamSAKeyMOMRepoMAP_immKey e.keyAttribute (some e.searchKey)⟩ := by
    unfold populateKeyHolderWithMOM
    split
    case h_1 repo hsome => exact absurd (h.symm.trans hsome) nofun
    case h_2 => rfl
  rw [hpopulate]
  by_cases hdecorated : e.decorated = true
  · rw [getDecoratedRootClasses, if_pos hdecorated]
    refine ⟨by simp [RegisteredMom.repo, hdecorated], fun key => ?_⟩
    by_cases hkey : key = e.keyAttribute <;> by_cases hname : key = e.momName ++ e.keyAttribute <;>
      simp [RegisteredMom.HasKey, Function.update_apply, hkey, hname, hdecorated]
  · rw [getDecoratedRootClasses, if_neg hdecorated]
    refine ⟨by simp [RegisteredMom.repo, hdecorated], fun key => ?_⟩
    by_cases hkey : key = e.keyAttribute <;>
      simp [RegisteredMom.HasKey, hkey, hdecorated]

theorem populate_spec (hdistinct : (moms.map RegisteredMom.searchKey).Nodup) :
    (∀ e ∈ moms, (Populate moms).momOamSAKeyMOMRepoMAP e.searchKey = some e.repo) ∧
      (∀ mom ∉ moms.map RegisteredMom.searchKey, (Populate moms).momOamSAKeyMOMRepoMAP mom = none) ∧
      ∀ key, (Populate moms).momOamSAKeyMOMRepoMAP_immKey key = (lastWith moms key).map
        RegisteredMom.searchKey := by
  induction moms using List.reverseRecOn with
  | nil => exact ⟨nofun, fun _ _ => rfl, fun _ => rfl⟩
  | append_singleton moms e ih =>
    rw [List.map_append, List.map_singleton] at hdistinct
    obtain ⟨hmoms, -, hnew⟩ := List.nodup_append.mp hdistinct
    obtain ⟨hkept, hnone, hkey⟩ := ih hmoms
    have hfresh : e.searchKey ∉ moms.map RegisteredMom.searchKey := fun hmem =>
      hnew e.searchKey hmem e.searchKey (List.mem_singleton.mpr rfl) rfl
    obtain ⟨hrepo', hkey'⟩ := register_spec (hnone e.searchKey hfresh)
    have hstep : Populate (moms ++ [e]) = getDecoratedRootClasses e
      (populateKeyHolderWithMOM e (Populate moms)) := by
      rw [Populate, List.foldl_append, List.foldl_cons, List.foldl_nil, Populate]
    rw [hstep, hrepo']
    refine ⟨fun e' hmem => ?_, fun mom hmem => ?_, fun key => ?_⟩
    · rcases List.mem_append.mp hmem with hold | hlast
      · have hne : e'.searchKey ≠ e.searchKey := fun heq => hfresh (heq ▸ List.mem_map_of_mem hold)
        rw [Function.update_of_ne hne, hkept e' hold]
      · rw [List.mem_singleton.mp hlast, Function.update_self]
    · rw [List.map_append, List.map_singleton, List.mem_append, List.mem_singleton, not_or] at hmem
      rw [Function.update_of_ne hmem.2, hnone mom hmem.1]
    · rw [hkey', hkey, lastWith_concat]
      split <;> rfl

theorem getMOMRepoImmKey_populate (hdistinct : (moms.map RegisteredMom.searchKey).Nodup) (key : List Char) :
    (Populate moms).getMOMRepoImmKey key = (lastWith moms key).elim {} RegisteredMom.repo := by
  obtain ⟨hkept, -, hkey⟩ := populate_spec hdistinct
  rw [getMOMRepoImmKey, hkey]
  cases hlast : lastWith moms key with
  | none => rfl
  | some e =>
    change ((Populate moms).momOamSAKeyMOMRepoMAP e.searchKey).getD {} = e.repo
    rw [hkept e (lastWith_mem hlast).1]
    rfl

/-! ## The way down -/

theorem momsFound_step {immRdn : List Char} (h : immRdn ≠ []) :
    momsFound env moms immRdn =
      let key := retriveKey (nextFragment immRdn).1
      if key ≠ [] ∧ ((lastWith moms key).isSome ∨ env.non_root_mo_notifications = true) then
        (lastWith moms key).toList ++ momsFound env moms (nextFragment immRdn).2
      else [] := by
  rw [momsFound, rootKeys, fragmentKeys, if_neg h, List.takeWhile_cons]
  simp only [decide_eq_true_eq, Bool.and_eq_true, Bool.or_eq_true, ← lastWith_isSome]
  split
  · cases hlast : lastWith moms (retriveKey (nextFragment immRdn).1) with
    | none => simp [hlast, momsFound, rootKeys, ← lastWith_isSome]
    | some e => simp [hlast, momsFound, rootKeys, ← lastWith_isSome]
  · rfl

section
variable {g : OamSAKeyAttributeRepository} {immRdn stringImmRdn imm_ClassName : List Char}
  {attrName : Option (List Char)} {e : RegisteredMom}

theorem searchMoms_of_mom (h : stringImmRdn ≠ []) (hkey : retriveKey (nextFragment stringImmRdn).1 ≠ [])
    (hrepo : g.getMOMRepoImmKey (retriveKey (nextFragment stringImmRdn).1) = e.repo) :
    searchMoms env g immRdn attrName stringImmRdn imm_ClassName =
      (e.Says env immRdn attrName imm_ClassName ||
        searchMoms env g immRdn attrName (nextFragment stringImmRdn).2 (e.nameLeft imm_ClassName)) := by
  rw [searchMoms]
  simp only [h, hkey, hrepo, if_false, RegisteredMom.repo, e.rootClass_ne]
  unfold RegisteredMom.Says RegisteredMom.nameLeft
  by_cases hdecorated : e.decorated = true
  · simp only [hdecorated, if_true, Bool.true_and]
    cases find e.momName imm_ClassName with
    | none => simp
    | some n => simp only [Option.isSome_some, if_true, Bool.true_and]; split <;> simp_all
  · simp only [hdecorated, Bool.false_eq_true, if_false, Bool.false_and]
    split <;> simp_all

theorem searchMoms_of_none (h : stringImmRdn ≠ []) (hkey : retriveKey (nextFragment stringImmRdn).1 ≠ [])
    (hrepo : g.getMOMRepoImmKey (retriveKey (nextFragment stringImmRdn).1) = {}) :
    searchMoms env g immRdn attrName stringImmRdn imm_ClassName =
      (env.non_root_mo_notifications &&
        searchMoms env g immRdn attrName (nextFragment stringImmRdn).2 imm_ClassName) := by
  rw [searchMoms]
  simp only [h, hkey, hrepo, if_false, if_true]
  cases env.non_root_mo_notifications <;> simp

end

theorem searchMoms_eq (hdistinct : (moms.map RegisteredMom.searchKey).Nodup) (immRdn : List Char)
    (attrName : Option (List Char)) (stringImmRdn imm_ClassName : List Char) :
    searchMoms env (Populate moms) immRdn attrName stringImmRdn imm_ClassName =
      (asked (momsFound env moms stringImmRdn) imm_ClassName).any fun a => a.1.Says env immRdn attrName a.2 := by
  induction hn : stringImmRdn.length using Nat.strong_induction_on generalizing stringImmRdn imm_ClassName with
  | h n ih =>
    by_cases hempty : stringImmRdn = []
    · rw [hempty, searchMoms, if_pos rfl, momsFound, rootKeys, fragmentKeys, if_pos rfl]
      rfl
    have hrest := fun c => ih _ (hn ▸ nextFragment_length hempty) (nextFragment stringImmRdn).2 c rfl
    rw [momsFound_step hempty]
    by_cases hkey : retriveKey (nextFragment stringImmRdn).1 = []
    · rw [searchMoms]
      simp [hempty, hkey, asked]
    have hrepo := getMOMRepoImmKey_populate hdistinct (retriveKey (nextFragment stringImmRdn).1)
    cases hlast : lastWith moms (retriveKey (nextFragment stringImmRdn).1) with
    | none =>
      rw [hlast] at hrepo
      rw [searchMoms_of_none hempty hkey hrepo, hrest]
      cases env.non_root_mo_notifications <;> simp [hkey, hlast, asked]
    | some e =>
      rw [hlast] at hrepo
      rw [searchMoms_of_mom hempty hkey hrepo, hrest]
      simp [hkey, hlast, asked]

/-! ## The answer -/

/-- A MOM has no notifiable class under the name, nor under what is left of it when something is cut off. -/
def RegisteredMom.Silent (e : RegisteredMom) (env : NotifyEnv) (immRdn immClassName : List Char)
    (attrName : Option (List Char)) : Prop :=
  ¬ e.Marks env immRdn immClassName attrName ∧ ∀ className, className <:+ immClassName → className ≠ immClassName →
    isNotifiable e.classAttributeNotifiableMap className attrName = false

/-- Each key of a root class on the way down is the IMM key of one MOM and no other key. A class name in which the name
of a decorated MOM on the way occurs begins with it, and that MOM marks the class or all that come after it on the way
are silent. -/
structure ToldApart (env : NotifyEnv) (moms : List RegisteredMom) (immRdn immClassName : List Char)
    (attrName : Option (List Char)) : Prop where
  oneMom : ∀ key ∈ rootKeys env moms immRdn, ∀ e ∈ moms, ∀ e' ∈ moms, e.HasKey key → e'.HasKey key → e = e'
  immKey : ∀ key ∈ rootKeys env moms immRdn, ∀ e ∈ moms, e.HasKey key → key = e.immKey
  atStart : ∀ e ∈ moms, e.decorated = true → e.immKey ∈ rootKeys env moms immRdn → e.momName <:+: immClassName →
    e.momName <+: immClassName
  uncut : ∀ e ∈ moms, e.decorated = true → e.momName <+: immClassName → ∀ before after,
    rootKeys env moms immRdn = before ++ e.immKey :: after → e.Marks env immRdn immClassName attrName ∨
      ∀ e' ∈ moms, e'.immKey ∈ after → e'.Silent env immRdn immClassName attrName

section
variable {immRdn immClassName : List Char} {attrName : Option (List Char)} {e : RegisteredMom}

theorem find_isSome_iff {t s : List Char} : (find t s).isSome = true ↔ t <:+: s := by
  rw [find, Option.isSome_iff_ne_none, ne_eq, List.head?_eq_none_iff, List.filter_eq_nil_iff]
  constructor
  · intro h
    push Not at h
    obtain ⟨i, -, hat⟩ := h
    exact (List.isPrefixOf_iff_prefix.mp hat).isInfix.trans (List.drop_suffix i s).isInfix
  · rintro ⟨a, b, rfl⟩ hnone
    have hat : a.length ∈ List.range ((a ++ t ++ b).length + 1) := List.mem_range.mpr (by
      simp only [List.length_append]
      omega)
    refine hnone a.length hat (List.isPrefixOf_iff_prefix.mpr ?_)
    rw [List.append_assoc, List.drop_left]
    exact List.prefix_append t b

theorem says_iff (hstart : e.decorated = true → e.momName <:+: immClassName → e.momName <+: immClassName) :
    e.Says env immRdn attrName immClassName = true ↔ e.Marks env immRdn immClassName attrName := by
  unfold RegisteredMom.Says RegisteredMom.Marks
  by_cases hdecorated : e.decorated = true
  · simp only [hdecorated, if_true, Bool.and_eq_true, Bool.or_eq_true, find_isSome_iff]
    constructor
    · rintro ⟨hpart, hyes⟩
      obtain ⟨className, hname⟩ := hstart hdecorated hpart
      rw [← hname, List.drop_left] at hyes
      exact ⟨className, hname.symm, hyes⟩
    · rintro ⟨className, rfl, hyes⟩
      rw [List.drop_left]
      exact ⟨(List.prefix_append _ _).isInfix, hyes⟩
  · simp [hdecorated]

theorem nameLeft_suffix (name : List Char) : e.nameLeft name <:+ name := by
  unfold RegisteredMom.nameLeft
  split
  · exact List.drop_suffix _ _
  · exact List.suffix_refl _

theorem RegisteredMom.Silent.not_says (h : e.Silent env immRdn immClassName attrName)
    (hstart : e.decorated = true → e.momName <:+: immClassName → e.momName <+: immClassName) {name : List Char}
    (hname : name <:+ immClassName) : e.Says env immRdn attrName name = false := by
  by_cases hwhole : name = immClassName
  · rw [hwhole, ← Bool.not_eq_true, says_iff hstart]
    exact h.1
  · rw [← Bool.not_eq_true]
    unfold RegisteredMom.Says
    by_cases hdecorated : e.decorated = true
    · simp only [hdecorated, if_true, Bool.and_eq_true, Bool.or_eq_true, find_isSome_iff]
      rintro ⟨hpart, hyes⟩
      obtain ⟨className, hclass⟩ := hstart hdecorated (hpart.trans hname.isInfix)
      have hrest : name.drop e.momName.length ≠ immClassName := by
        intro heq
        have hsuffix := List.drop_suffix e.momName.length name
        rw [heq] at hsuffix
        exact hwhole (hname.eq_of_length_le hsuffix.length_le)
      rcases hyes with hyes | hyes
      · rw [h.2 _ ((List.drop_suffix _ _).trans hname) hrest] at hyes
        cases hyes
      · exact h.1 ⟨className, by rw [if_pos hdecorated, hclass], Or.inr hyes⟩
    · rw [if_neg hdecorated, Bool.or_eq_true]
      rintro (hyes | hyes)
      · rw [h.2 name hname hwhole] at hyes
        cases hyes
      · exact h.1 ⟨immClassName, by rw [if_neg hdecorated], Or.inr hyes⟩

theorem asked_of_silent {way : List RegisteredMom} (hsilent : ∀ e ∈ way, e.Silent env immRdn immClassName attrName)
    (hstart : ∀ e ∈ way, e.decorated = true → e.momName <:+: immClassName → e.momName <+: immClassName)
    {name : List Char} (hname : name <:+ immClassName) :
    (asked way name).any (fun a => a.1.Says env immRdn attrName a.2) = false := by
  induction way generalizing name with
  | nil => rfl
  | cons e way ih =>
    obtain ⟨hone, hsilent⟩ := List.forall_mem_cons.mp hsilent
    obtain ⟨hfirst, hstart⟩ := List.forall_mem_cons.mp hstart
    rw [asked, List.any_cons, hone.not_says hfirst hname, Bool.false_or]
    exact ih hsilent hstart ((nameLeft_suffix name).trans hname)

/-- Where the MOM that cuts the name marks the class or is followed by silent ones, the answer is whether some MOM marks
it. By induction on the way down. -/
theorem asked_iff {way : List RegisteredMom}
    (hstart : ∀ e ∈ way, e.decorated = true → e.momName <:+: immClassName → e.momName <+: immClassName)
    (huncut : ∀ before e after, way = before ++ e :: after → e.decorated = true → e.momName <+: immClassName →
      e.Marks env immRdn immClassName attrName ∨ ∀ e' ∈ after, e'.Silent env immRdn immClassName attrName) :
    (asked way immClassName).any (fun a => a.1.Says env immRdn attrName a.2) = true ↔
      ∃ e ∈ way, e.Marks env immRdn immClassName attrName := by
  induction way with
  | nil => simp [asked]
  | cons e way ih =>
    obtain ⟨hfirst, hrest⟩ := List.forall_mem_cons.mp hstart
    rw [asked, List.any_cons, Bool.or_eq_true, says_iff hfirst, List.exists_mem_cons_iff]
    by_cases hmarks : e.Marks env immRdn immClassName attrName
    · exact iff_of_true (Or.inl hmarks) (Or.inl hmarks)
    · rw [or_iff_right hmarks, or_iff_right hmarks]
      by_cases hcut : e.decorated = true ∧ e.momName <:+: immClassName
      · have hsilent := (huncut [] e way rfl hcut.1 (hfirst hcut.1 hcut.2)).resolve_left hmarks
        rw [asked_of_silent hsilent hrest (nameLeft_suffix immClassName)]
        exact iff_of_false Bool.false_ne_true fun ⟨e', he', hmarks'⟩ => (hsilent e' he').1 hmarks'
      · have hleft : e.nameLeft immClassName = immClassName := by
          refine if_neg fun hboth => hcut ?_
          rw [Bool.and_eq_true, find_isSome_iff] at hboth
          exact hboth
        rw [hleft]
        exact ih hrest fun before e' after hway => huncut (e :: before) e' after (by rw [hway, List.cons_append])

namespace ToldApart
variable (h : ToldApart env moms immRdn immClassName attrName)
include h

theorem lastWith_eq {key : List Char} (hkey : key ∈ rootKeys env moms immRdn) :
    ∃ e ∈ moms, lastWith moms key = some e ∧ e.immKey = key := by
  have hroot : isRootKey moms key = true := (List.mem_filter.mp hkey).2
  rw [← lastWith_isSome] at hroot
  obtain ⟨e, he⟩ := Option.isSome_iff_exists.mp hroot
  obtain ⟨hmem, hhas⟩ := lastWith_mem he
  exact ⟨e, hmem, he, (h.immKey key hkey e hmem hhas).symm⟩

theorem map_immKey : (momsFound env moms immRdn).map RegisteredMom.immKey = rootKeys env moms immRdn := by
  have hall (keys : List (List Char)) (hkeys : ∀ key ∈ keys, key ∈ rootKeys env moms immRdn) :
      (keys.filterMap (lastWith moms)).map RegisteredMom.immKey = keys := by
    induction keys with
    | nil => rfl
    | cons key keys ih =>
      obtain ⟨hkey, hkeys⟩ := List.forall_mem_cons.mp hkeys
      obtain ⟨e, -, hlast, himm⟩ := h.lastWith_eq hkey
      rw [List.filterMap_cons_some hlast, List.map_cons, himm, ih hkeys]
  exact hall _ fun _ hkey => hkey

theorem mem_momsFound_iff (e : RegisteredMom) :
    e ∈ momsFound env moms immRdn ↔ e ∈ moms ∧ e.immKey ∈ rootKeys env moms immRdn := by
  have hown (e : RegisteredMom) : e.HasKey e.immKey := by
    unfold RegisteredMom.HasKey RegisteredMom.immKey
    split
    · exact Or.inr ⟨‹_›, rfl⟩
    · exact Or.inl rfl
  constructor
  · intro he
    obtain ⟨key, -, hlast⟩ := List.mem_filterMap.mp he
    refine ⟨(lastWith_mem hlast).1, ?_⟩
    rw [← h.map_immKey]
    exact List.mem_map_of_mem he
  · rintro ⟨he, hkey⟩
    obtain ⟨e', he', hlast, himm⟩ := h.lastWith_eq hkey
    obtain rfl := h.oneMom _ hkey e he e' he' (hown e) (himm ▸ hown e')
    exact List.mem_filterMap.mpr ⟨_, hkey, hlast⟩

theorem answer (hdistinct : (moms.map RegisteredMom.searchKey).Nodup) :
    isNotified env (Populate moms) immRdn immClassName attrName = true ↔
      MarkedInMom env moms immRdn immClassName attrName := by
  rw [isNotified, searchMoms_eq hdistinct, asked_iff]
  · unfold MarkedInMom
    simp only [h.mem_momsFound_iff, and_assoc]
  · intro e he
    obtain ⟨hmem, hkey⟩ := (h.mem_momsFound_iff e).mp he
    exact fun hdecorated => h.atStart e hmem hdecorated hkey
  · intro before e after hway hdecorated hprefix
    have he : e ∈ momsFound env moms immRdn := hway ▸ List.mem_append_right _ List.mem_cons_self
    have hkeys : rootKeys env moms immRdn =
        before.map RegisteredMom.immKey ++ e.immKey :: after.map RegisteredMom.immKey := by
      rw [← h.map_immKey, hway, List.map_append, List.map_cons]
    refine (h.uncut e ((h.mem_momsFound_iff e).mp he).1 hdecorated hprefix _ _ hkeys).imp_right fun hsilent e' he' => ?_
    have hfound : e' ∈ momsFound env moms immRdn := hway ▸ List.mem_append_right _ (List.mem_cons_of_mem _ he')
    exact hsilent e' ((h.mem_momsFound_iff e').mp hfound).1 (List.mem_map_of_mem he')

omit h in
theorem rootKeys_perm {moms' : List RegisteredMom} (hperm : moms'.Perm moms) (immRdn : List Char) :
    rootKeys env moms' immRdn = rootKeys env moms immRdn := by
  have hroot : isRootKey moms' = isRootKey moms := by
    funext key
    rw [Bool.eq_iff_iff, isRootKey, isRootKey, List.any_eq_true, List.any_eq_true]
    simp only [hperm.mem_iff]
  rw [rootKeys, rootKeys, hroot]

theorem perm {moms' : List RegisteredMom} (hperm : moms'.Perm moms) :
    ToldApart env moms' immRdn immClassName attrName := by
  obtain ⟨honeMom, himmKey, hatStart, huncut⟩ := h
  constructor <;> simpa only [rootKeys_perm hperm, hperm.mem_iff]

end ToldApart

end

def roomMom : RegisteredMom :=
  ⟨"ManagedElement/Room".toList, "Room".toList, by decide, "roomId".toList, "A".toList, true, []⟩

/-- Its root class is below a room, and the name begins with the name of the other MOM. -/
def bookMom : RegisteredMom :=
  ⟨"Room/ABook".toList, "ABook".toList, by decide, "aBookId".toList, "Library".toList, false,
    [("ABook".toList, [])]⟩

def shelfMom : RegisteredMom :=
  ⟨"Room/Shelf".toList, "Shelf".toList, by decide, "aBookId".toList, "Storage".toList, false, []⟩

def roomAndBook : MomSet := ⟨[roomMom, bookMom], by decide⟩

def bookAndShelf : MomSet := ⟨[shelfMom, bookMom], by decide⟩

def noStructs : NotifyEnv := ⟨false, fun _ _ => ([], [])⟩

/-- A decorated MOM that has a notifiable class, below one that is not decorated. -/
def deskMom : RegisteredMom :=
  ⟨"ManagedElement/Room".toList, "Room".toList, by decide, "roomId".toList, "A".toList, true, [("Desk".toList, [])]⟩

def elementMom : RegisteredMom :=
  ⟨"/ManagedElement".toList, "ManagedElement".toList, by decide, "managedElementId".toList, "Top".toList, false,
    [("Desk".toList, [])]⟩

def elementAndDesk : MomSet := ⟨[elementMom, deskMom], by decide⟩

theorem toldApart_desk :
    ToldApart noStructs elementAndDesk.moms "ADeskId=1,AroomId=2,managedElementId=1".toList "ADesk".toList none := by
  have hway : rootKeys noStructs elementAndDesk.moms "ADeskId=1,AroomId=2,managedElementId=1".toList =
      ["managedElementId".toList, "AroomId".toList] := by decide +kernel
  constructor
  · rw [hway]
    decide
  · rw [hway]
    decide
  · intro e he hdecorated _ _
    simp only [elementAndDesk, List.mem_cons, List.not_mem_nil, or_false] at he
    rcases he with rfl | rfl
    · cases hdecorated
    · decide
  · intro e he hdecorated _ _ _ _
    simp only [elementAndDesk, List.mem_cons, List.not_mem_nil, or_false] at he
    rcases he with rfl | rfl
    · cases hdecorated
    · exact Or.inl ⟨"Desk".toList, by decide, Or.inl (by decide)⟩

end

end ComSA.Notified
