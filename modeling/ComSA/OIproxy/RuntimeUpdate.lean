import ComSA.Lib.Decimal
import ComSA.Lib.PartialFold
import ComSA.Lib.Related
import ComSA.OIproxy.OIProxy
import ComSA.OIproxy.RuntimeStruct
import Mathlib.Data.List.Pairwise

/-!
# The objects of runtime structs

A runtime attribute that is a struct is stored as references, and an object is made in IMM for each of its
values. The objects that were made are on one list, whatever object they are for, and the next read deletes them
all.
-/

namespace ComSA.OIproxy

/-! ## The objects in IMM -/

structure StructObject where
  className : String
  attrValues : List (Option SaImmAttrValues)
  deriving DecidableEq, Repr

/-- What is stored for the attributes of the objects, the objects that were made for structs, and the list of
them. -/
structure RuntimeStructs where
  stored : String → String → List SaImmAttrValue
  objects : String → Option StructObject
  runtimeStructInstances : List String

def RuntimeStructs.empty : RuntimeStructs := ⟨fun _ _ => [], fun _ => none, []⟩

def saImmOiRtObjectDelete (objectName : String) (s : RuntimeStructs) : RuntimeStructs :=
  { s with objects := fun dn =>
      if dn = objectName ∨ ("," ++ objectName).toList <:+ dn.toList then none else s.objects dn }

def saImmOiRtObjectCreate (dn : String) (object : StructObject) (s : RuntimeStructs) : RuntimeStructs :=
  if (s.objects dn).isSome then s
  else { s with objects := fun dn' => if dn' = dn then some object else s.objects dn' }

def saImmOiRtObjectUpdate (objectName : String) : List SaImmAttrValues → RuntimeStructs → RuntimeStructs
  | [], s => s
  | attr :: attrMods, s =>
    saImmOiRtObjectUpdate objectName attrMods { s with stored := fun object attrName =>
      if object = objectName ∧ attrName = attr.attrName then attr.attrValues else s.stored object attrName }

/-! ## The callback -/

structure RtEnv where
  attributes : AttributeEnv
  MO2Imm_DN : String → String
  bExtendedNameEnabled : Bool

def RtEnv.names (env : RtEnv) : NameEnv := ⟨env.MO2Imm_DN, env.bExtendedNameEnabled⟩

inductive RtContainer where
  | struct (values : List (List RuntimeMember))
  | simple (container : AttributeContainer)
  deriving DecidableEq, Repr

/-- What the callback has when its object and the interface of the object are found: the description of the class in
IMM, the answers for the attributes, of which a container can be missing, and the classes of the structs. -/
structure RtUpdate where
  objectName : String
  attributeNames : List String
  attrDef : List SaImmAttrDefinition
  getMoAttribute : String → Option (Option RtContainer)
  getStructClassNameFromCOM : String → Option String

variable (env : RtEnv)

/-- The name is set first, which is not defined for one that does not fit. -/
def deleteInstance (s : RuntimeStructs) (name : String) : Option RuntimeStructs :=
  (env.names.makeSaNameT name).map fun objectName => saImmOiRtObjectDelete objectName s

def removeStructInstancesFromIMM (s : RuntimeStructs) : Option RuntimeStructs :=
  (s.runtimeStructInstances.foldlM (deleteInstance env) s).map fun s => { s with runtimeStructInstances := [] }

def removeNewStructInstancesFromIMM (deleteList : List String) (value : String) (s : RuntimeStructs) :
    Option RuntimeStructs :=
  if value ∈ deleteList then some s else deleteInstance env s value

def structRdn (attrName : String) (n : Nat) : String := "id=" ++ attrName ++ "_" ++ toString n

def structReference (attrName : String) (n : Nat) (objectName : String) : String :=
  structRdn attrName n ++ "," ++ objectName

/-- The copy of the old list is empty after it was looked into once. -/
def addInstance (w : RuntimeStructs × List String) (tempAttrValue : String) :
    Option (RuntimeStructs × List String) :=
  (removeNewStructInstancesFromIMM env w.2 tempAttrValue
    { w.1 with runtimeStructInstances := w.1.runtimeStructInstances ++ [tempAttrValue] }).map fun s => (s, [])

/-- One attribute: its modification, or the error that ends the callback. The references are set one after the
other, each after its instance was added. -/
def collectAttr (u : RtUpdate) (attrName : String) (w : RuntimeStructs × List String) :
    Option ((RuntimeStructs × List String) × Except SaAisError SaImmAttrValues) :=
  match u.attrDef.find? fun attrDef => attrDef.attrName = attrName with
  | none => some (w, .error .failedOperation)
  | some attrDef =>
    match u.getMoAttribute attrName with
    | none => some (w, .error .failedOperation)
    | some none => some (w, .error .invalidParam)
    | some (some (.struct values)) =>
      let references := (List.range values.length).map fun n => structReference attrName n u.objectName
      match references.foldlM (addInstance env) w, references.mapM env.names.makeSaNameT with
      | some w, some names => some (w, .ok ⟨attrName, .saName, names.map .name⟩)
      | _, _ => none
    | some (some (.simple container)) =>
      match copyMoAttrToImm env.attributes container attrDef with
      | none => some (w, .error .failedOperation)
      | some attr => some (w, .ok attr)

def collectAttrs (u : RtUpdate) :
    List String → RuntimeStructs × List String → Option (RuntimeStructs × Except SaAisError (List SaImmAttrValues))
  | [], w => some (w.1, .ok [])
  | attrName :: attributeNames, w =>
    match collectAttr env u attrName w with
    | none => none
    | some (w, .error ret) => some (w.1, .error ret)
    | some (w, .ok attr) =>
      match collectAttrs u attributeNames w with
      | none => none
      | some (s, .error ret) => some (s, .error ret)
      | some (s, .ok attrMods) => some (s, .ok (attr :: attrMods))

def rdnOf (attrValue : String) : String := String.ofList (attrValue.toList.takeWhile fun c => c ≠ ',')

/-- The object for one value. Reading a number as a name, or a value that the struct does not have, is not
defined. -/
def createStructObject (objectName structClassName : String) (values : List (List RuntimeMember))
    (s : RuntimeStructs)
    (x : SaImmAttrValue × Nat) : Option RuntimeStructs :=
  match x.1, values[x.2]? with
  | .name attrValue, some structMember =>
    (createRuntimeStructAttrMods env.names (rdnOf attrValue) structMember).map fun attrValues =>
      saImmOiRtObjectCreate (rdnOf attrValue ++ "," ++ objectName) ⟨structClassName, attrValues⟩ s
  | _, _ => none

/-- The inner index hides the outer one, so each modification is compared with its own name. -/
def createStructObjects (u : RtUpdate) (structClassName : String) (values : List (List RuntimeMember))
    (attrMods : List SaImmAttrValues) (s : RuntimeStructs) : Option RuntimeStructs :=
  (attrMods.zip u.attributeNames).foldlM (fun s x =>
    if x.1.attrName = x.2 then x.1.attrValues.zipIdx.foldlM
      (createStructObject env u.objectName structClassName values) s
    else some s) s

def createInstances (u : RtUpdate) (attrMods : List SaImmAttrValues) (s : RuntimeStructs) (attrName : String) :
    Option RuntimeStructs :=
  match u.getMoAttribute attrName with
  | some (some (.struct values)) =>
    match u.getStructClassNameFromCOM attrName with
    | none => some s
    | some structClassName => createStructObjects env u structClassName values attrMods s
  | _ => some s

def rtAttrUpdate (u : RtUpdate) (s : RuntimeStructs) : Option (SaAisError × RuntimeStructs) :=
  (removeStructInstancesFromIMM env s).bind fun removed =>
  match collectAttrs env u u.attributeNames (removed, s.runtimeStructInstances) with
  | none => none
  | some (s, .error ret) => some (ret, s)
  | some (s, .ok attrMods) =>
    (u.attributeNames.foldlM (createInstances env u attrMods) (saImmOiRtObjectUpdate u.objectName attrMods s)).map
      fun s => (.ok, s)

/-! ## References and objects -/

abbrev Returned := String → String → Option (List (List RuntimeMember))

namespace RtUpdate

variable (u : RtUpdate)

def structs (attrName : String) : Option (List (List RuntimeMember)) :=
  match u.getMoAttribute attrName with
  | some (some (.struct values)) => some values
  | _ => none

def returned (ret : Returned) : Returned := fun object attrName =>
  if object = u.objectName ∧ attrName ∈ u.attributeNames then u.structs attrName else ret object attrName

end RtUpdate

inductive ReachedBy (allowed : Returned → RtUpdate → Prop) : RuntimeStructs → Returned → Prop
  | start : ReachedBy allowed RuntimeStructs.empty fun _ _ => none
  | update {s s' : RuntimeStructs} {ret : Returned} {u : RtUpdate} {err : SaAisError}
    (hreached : ReachedBy allowed s ret)
      (hallowed : allowed ret u) (hupdate : rtAttrUpdate env u s = some (err, s')) :
      ReachedBy allowed s' (if err = .ok then u.returned ret else ret)

/-- The object that a reference names, below the object it is stored for. -/
def NamesObject (s : RuntimeStructs) (object : String) (v : SaImmAttrValue) (members : List RuntimeMember) : Prop :=
  ∃ rdn o, v = .name (rdn ++ "," ++ object) ∧ s.objects (rdn ++ "," ++ object) = some o ∧
    createRuntimeStructAttrMods env.names rdn members = some o.attrValues

/-- Each reference names an object with the members that were returned last, and each object has a reference. -/
structure ReferencesMatch (s : RuntimeStructs) (ret : Returned) : Prop where
  named : ∀ object attrName values, ret object attrName = some values →
    List.Forall₂ (NamesObject env s object) (s.stored object attrName) values
  needed : ∀ dn, s.objects dn ≠ none →
    ∃ object attrName values, ret object attrName = some values ∧ .name dn ∈ s.stored object attrName

/-! ## When they match -/

namespace RtUpdate

variable (u : RtUpdate)

def nrOfValues (attrName : String) : Nat :=
  match u.getMoAttribute attrName with
  | some (some (.struct values)) => values.length
  | some (some (.simple container)) => container.values.length
  | _ => 0

def Apart (a b : String) : Prop := (u.structs a ≠ none → u.nrOfValues b = 0) ∧
    (u.structs b ≠ none → u.nrOfValues a = 0)

/-- The modification that an attribute has, if it is known, answered and can be copied. -/
def attrMod (attrName : String) : Option SaImmAttrValues :=
  match u.attrDef.find? fun attrDef => attrDef.attrName = attrName with
  | none => none
  | some attrDef =>
    match u.getMoAttribute attrName with
    | some (some (.struct values)) =>
      some ⟨attrName, .saName, (List.range values.length).map fun n =>
        .name (structReference attrName n u.objectName)⟩
    | some (some (.simple container)) => copyMoAttrToImm env.attributes container attrDef
    | _ => none

def references (attrName : String) : List String :=
  match u.structs attrName with
  | some values => (List.range values.length).map fun n => structReference attrName n u.objectName
  | none => []

def Gets : Prop := ∀ attrName ∈ u.attributeNames, u.attrMod env attrName ≠ none

end RtUpdate

/-- The callback reads all that has struct values, and reads a struct with no other values. The references among the
members fit into names. -/
structure Complete (ret : Returned) (u : RtUpdate) : Prop where
  replaced : ∀ object attrName values, ret object attrName = some values → values ≠ [] →
    object = u.objectName ∧ attrName ∈ u.attributeNames
  alone : u.attributeNames.Pairwise u.Apart
  className : ∀ a ∈ u.attributeNames, ∀ values, u.structs a = some values → values ≠ [] →
    u.getStructClassNameFromCOM a ≠ none
  names : ∀ a ∈ u.attributeNames, ∀ values, u.structs a = some values → values ≠ [] → ',' ∉ a.toList
  members : ∀ a ∈ u.attributeNames, ∀ values, u.structs a = some values → ∀ members ∈ values,
    ReferencesFit env.names members

/-- A callback that fails comes only while there are no struct values. The references to the structs that are read
fit into names. -/
structure Fits (ret : Returned) (u : RtUpdate) : Prop where
  gets : u.Gets env → Complete env ret u
  fails : ¬ u.Gets env → ∀ object attrName values, ret object attrName = some values → values = []
  names : ∀ a ∈ u.attributeNames, ∀ name ∈ u.references a, env.names.Fits name

/-! ## Deletion -/

structure OnlyDeletes (s s' : RuntimeStructs) : Prop where
  stored : s'.stored = s.stored
  objects : ∀ dn, s'.objects dn ≠ none → s.objects dn ≠ none

namespace OnlyDeletes

variable {s s' s'' : RuntimeStructs}

theorem refl (s : RuntimeStructs) : OnlyDeletes s s := ⟨rfl, fun _ h => h⟩

theorem trans (h : OnlyDeletes s s') (h' : OnlyDeletes s' s'') : OnlyDeletes s s'' :=
  ⟨h'.stored.trans h.stored, fun dn hdn => h.objects dn (h'.objects dn hdn)⟩

theorem delete (objectName : String) (s : RuntimeStructs) : OnlyDeletes s (saImmOiRtObjectDelete objectName s) := by
  refine ⟨rfl, fun dn hdn hnone => hdn ?_⟩
  rw [saImmOiRtObjectDelete]
  dsimp only
  rw [hnone, ite_self]

theorem deleteAll (names : List String) (s : RuntimeStructs) :
    OnlyDeletes s (names.foldl (fun s name => saImmOiRtObjectDelete name s) s) := by
  induction names generalizing s with
  | nil => exact refl s
  | cons name names ih => exact (delete name s).trans (ih _)

end OnlyDeletes

theorem deleteInstance_of_fits {name : String} (h : env.names.Fits name) (s : RuntimeStructs) :
    deleteInstance env s name = some (saImmOiRtObjectDelete name s) := by
  unfold deleteInstance NameEnv.makeSaNameT
  rw [if_pos h]
  rfl

theorem removeStructInstances_spec {s : RuntimeStructs}
    (hfit : ∀ name ∈ s.runtimeStructInstances, env.names.Fits name)
    (hlisted : ∀ dn, s.objects dn ≠ none → dn ∈ s.runtimeStructInstances) :
    ∃ s', removeStructInstancesFromIMM env s = some s' ∧ s'.stored = s.stored ∧
      s'.runtimeStructInstances = [] ∧ ∀ dn, s'.objects dn = none := by
  have hdeleted : removeStructInstancesFromIMM env s =
      some { s.runtimeStructInstances.foldl (fun s name => saImmOiRtObjectDelete name s) s with
        runtimeStructInstances := [] } := by
    rw [removeStructInstancesFromIMM, foldlM_congr fun name hname s => deleteInstance_of_fits env (hfit name hname) s]
    exact congrArg _ List.foldlM_pure
  have honly := OnlyDeletes.deleteAll s.runtimeStructInstances s
  refine ⟨_, hdeleted, honly.stored, rfl, fun dn => ?_⟩
  by_contra hdn
  obtain ⟨pre, post, hsplit⟩ := List.append_of_mem (hlisted dn (honly.objects dn hdn))
  rw [hsplit, List.foldl_append, List.foldl_cons] at hdn
  refine (OnlyDeletes.deleteAll post _).objects _ hdn ?_
  rw [saImmOiRtObjectDelete]
  exact if_pos (Or.inl rfl)

/-! ## The first loop -/

theorem addInstance_spec {name : String} (h : env.names.Fits name) (w : RuntimeStructs × List String) :
    ∃ w', addInstance env w name = some w' ∧ OnlyDeletes w.1 w'.1 ∧
      w'.1.runtimeStructInstances = w.1.runtimeStructInstances ++ [name] := by
  have hadded : OnlyDeletes w.1
      { w.1 with runtimeStructInstances := w.1.runtimeStructInstances ++ [name] } := ⟨rfl, fun _ h => h⟩
  unfold addInstance removeNewStructInstancesFromIMM
  split
  · exact ⟨_, rfl, hadded, rfl⟩
  · rw [deleteInstance_of_fits env h]
    exact ⟨_, rfl, hadded.trans (OnlyDeletes.delete name _), rfl⟩

theorem addInstances_spec {references : List String} (h : ∀ name ∈ references, env.names.Fits name)
    (w : RuntimeStructs × List String) :
    ∃ w', references.foldlM (addInstance env) w = some w' ∧ OnlyDeletes w.1 w'.1 ∧
      w'.1.runtimeStructInstances = w.1.runtimeStructInstances ++ references := by
  induction references generalizing w with
  | nil => exact ⟨w, rfl, OnlyDeletes.refl _, (List.append_nil _).symm⟩
  | cons name references ih =>
    obtain ⟨w₁, hadd, honly, hlisted⟩ := addInstance_spec env (h name List.mem_cons_self) w
    obtain ⟨w₂, hrest, honly', hlisted'⟩ := ih (fun n hn => h n (List.mem_cons_of_mem name hn)) w₁
    refine ⟨w₂, ?_, honly.trans honly', ?_⟩
    · rw [List.foldlM_cons, hadd]
      exact hrest
    · rw [hlisted', hlisted, List.append_assoc]
      rfl

theorem collectAttr_spec (u : RtUpdate) (attrName : String) (hfit : ∀ name ∈ u.references attrName,
    env.names.Fits name) (w : RuntimeStructs × List String) :
    ∃ r, collectAttr env u attrName w = some r ∧ OnlyDeletes w.1 r.1.1 ∧
      ((u.attrMod env attrName = none ∧ ∃ ret, ret ≠ .ok ∧ r = (w, .error ret)) ∨
        ∃ attr, u.attrMod env attrName = some attr ∧ r.2 = .ok attr ∧
          r.1.1.runtimeStructInstances = w.1.runtimeStructInstances ++ u.references attrName) := by
  unfold RtUpdate.references RtUpdate.structs at hfit
  unfold collectAttr RtUpdate.attrMod RtUpdate.references RtUpdate.structs
  cases u.attrDef.find? fun attrDef => attrDef.attrName = attrName with
  | none => exact ⟨_, rfl, OnlyDeletes.refl _, Or.inl ⟨rfl, .failedOperation, by decide, rfl⟩⟩
  | some attrDef =>
    dsimp only
    cases hanswer : u.getMoAttribute attrName with
    | none => exact ⟨_, rfl, OnlyDeletes.refl _, Or.inl ⟨rfl, .failedOperation, by decide, rfl⟩⟩
    | some container =>
      rw [hanswer] at hfit
      cases container with
      | none => exact ⟨_, rfl, OnlyDeletes.refl _, Or.inl ⟨rfl, .invalidParam, by decide, rfl⟩⟩
      | some container =>
        cases container with
        | struct values =>
          obtain ⟨w', hadded, honly, hlisted⟩ := addInstances_spec env hfit w
          dsimp only
          rw [hadded, mapM_makeSaNameT env.names hfit]
          refine ⟨_, rfl, honly, Or.inr ⟨_, rfl, ?_, hlisted⟩⟩
          rw [List.map_map]
          rfl
        | simple container =>
          dsimp only
          cases copyMoAttrToImm env.attributes container attrDef with
          | none => exact ⟨_, rfl, OnlyDeletes.refl _, Or.inl ⟨rfl, .failedOperation, by decide, rfl⟩⟩
          | some attr => exact ⟨_, rfl, OnlyDeletes.refl _, Or.inr ⟨attr, rfl, rfl, (List.append_nil _).symm⟩⟩

theorem collectAttrs_spec (u : RtUpdate) {attributeNames : List String}
    (hfit : ∀ a ∈ attributeNames, ∀ name ∈ u.references a, env.names.Fits name)
    (w : RuntimeStructs × List String) (hw : ∀ name ∈ w.1.runtimeStructInstances, env.names.Fits name) :
    ∃ r, collectAttrs env u attributeNames w = some r ∧ OnlyDeletes w.1 r.1 ∧
      (∀ name ∈ r.1.runtimeStructInstances, env.names.Fits name) ∧
      (((∃ a ∈ attributeNames, u.attrMod env a = none) ∧ ∃ ret, ret ≠ .ok ∧ r.2 = .error ret) ∨
        ∃ attrMods, List.Forall₂ (fun a attr => u.attrMod env a = some attr) attributeNames attrMods ∧
          r.2 = .ok attrMods ∧
          r.1.runtimeStructInstances = w.1.runtimeStructInstances ++ attributeNames.flatMap u.references) := by
  induction attributeNames generalizing w with
  | nil => exact ⟨_, rfl, OnlyDeletes.refl _, hw, Or.inr ⟨[], List.Forall₂.nil, rfl, (List.append_nil _).symm⟩⟩
  | cons a attributeNames ih =>
    have hfita := hfit a List.mem_cons_self
    obtain ⟨⟨w', result⟩, hcollect, honly, hattr⟩ := collectAttr_spec env u a hfita w
    rw [collectAttrs, hcollect]
    rcases hattr with ⟨hnone, ret, hret, hend⟩ | ⟨attr, hattr, hok, hlisted⟩
    · cases hend
      exact ⟨_, rfl, honly, hw, Or.inl ⟨⟨a, List.mem_cons_self, hnone⟩, ret, hret, rfl⟩⟩
    · dsimp only at hok hlisted
      subst hok
      have hw' : ∀ name ∈ w'.1.runtimeStructInstances, env.names.Fits name := by
        rw [hlisted]
        intro name hname
        exact (List.mem_append.mp hname).elim (hw name) (hfita name)
      obtain ⟨⟨s, result⟩, hcollects, honly', hnames, hattrs⟩ :=
        ih (fun b hb => hfit b (List.mem_cons_of_mem a hb)) w' hw'
      dsimp only
      rw [hcollects]
      rcases hattrs with ⟨⟨b, hb, hnone⟩, ret, hret, hend⟩ | ⟨attrMods, hattrMods, hend, hlisted'⟩
      · cases hend
        exact ⟨_, rfl, honly.trans honly', hnames,
          Or.inl ⟨⟨b, List.mem_cons_of_mem a hb, hnone⟩, ret, hret, rfl⟩⟩
      · dsimp only at hend hlisted'
        subst hend
        refine ⟨_, rfl, honly.trans honly', hnames,
          Or.inr ⟨attr :: attrMods, List.Forall₂.cons hattr hattrMods, rfl, ?_⟩⟩
        rw [hlisted', hlisted, List.flatMap_cons, List.append_assoc]

/-! ## What is stored -/

theorem copyMoAttrToImm_name {env : AttributeEnv} {container : AttributeContainer} {attrDef : SaImmAttrDefinition}
    {attr : SaImmAttrValues} (h : copyMoAttrToImm env container attrDef = some attr) :
    attr.attrName = attrDef.attrName := by
  unfold copyMoAttrToImm at h
  split at h
  · cases h
  · obtain ⟨values, -, rfl⟩ := Option.map_eq_some_iff.mp h
    rfl

theorem attrMod_name {u : RtUpdate} {a : String} {attr : SaImmAttrValues} (h : u.attrMod env a = some attr) :
    attr.attrName = a := by
  unfold RtUpdate.attrMod at h
  cases hfound : u.attrDef.find? fun attrDef => attrDef.attrName = a with
  | none => rw [hfound] at h; cases h
  | some attrDef =>
    have hname : attrDef.attrName = a := by simpa using List.find?_some hfound
    rw [hfound] at h
    dsimp only at h
    split at h
    · cases h
      rfl
    · rw [copyMoAttrToImm_name h, hname]
    · cases h

theorem attrMod_struct {u : RtUpdate} {a : String} {attr : SaImmAttrValues} {values : List (List RuntimeMember)}
    (h : u.attrMod env a = some attr) (hstruct : u.structs a = some values) :
    attr.attrValues = (List.range values.length).map fun n => .name (structReference a n u.objectName) := by
  unfold RtUpdate.attrMod at h
  unfold RtUpdate.structs at hstruct
  split at h
  · cases h
  · split at hstruct
    · next hanswer =>
      rw [hanswer] at h
      cases hstruct
      cases h
      rfl
    · cases hstruct

theorem attrMod_no_values {u : RtUpdate} {a : String} {attr : SaImmAttrValues} (h : u.attrMod env a = some attr)
    (hvalues : u.nrOfValues a = 0) : attr.attrValues = [] := by
  unfold RtUpdate.attrMod at h
  unfold RtUpdate.nrOfValues at hvalues
  split at h
  · cases h
  · split at hvalues
    · next hanswer =>
      rw [hanswer] at h
      cases h
      dsimp only
      rw [hvalues]
      rfl
    · next hanswer =>
      rw [hanswer] at h
      dsimp only at h
      unfold copyMoAttrToImm at h
      split at h
      · cases h
      · rw [List.eq_nil_of_length_eq_zero hvalues] at h
        cases h
        rfl
    · next hanswer hanswer' =>
      split at h
      · next values hstruct => exact absurd hstruct (hanswer values)
      · next container hsimple => exact absurd hsimple (hanswer' container)
      · cases h

section Update

variable {u : RtUpdate} {attributeNames : List String} {attrMods : List SaImmAttrValues}
  (hmods : List.Forall₂ (fun a attr => u.attrMod env a = some attr) attributeNames attrMods)
include hmods

theorem update_other {objectName object a : String} (h : ¬ (object = objectName ∧ a ∈ attributeNames))
    (s : RuntimeStructs) : (saImmOiRtObjectUpdate objectName attrMods s).stored object a = s.stored object a := by
  induction hmods generalizing s with
  | nil => rfl
  | cons hattr _ ih =>
    rw [saImmOiRtObjectUpdate, ih fun hin => h ⟨hin.1, List.mem_cons_of_mem _ hin.2⟩]
    refine if_neg fun hin => h ⟨hin.1, ?_⟩
    rw [hin.2, attrMod_name env hattr]
    exact List.mem_cons_self

theorem update_own {objectName a : String} (ha : a ∈ attributeNames) {attr : SaImmAttrValues}
    (hattr : u.attrMod env a = some attr) (s : RuntimeStructs) :
    (saImmOiRtObjectUpdate objectName attrMods s).stored objectName a = attr.attrValues := by
  induction hmods generalizing s with
  | nil => cases ha
  | @cons b attr' attributeNames attrMods hattr' hrest ih =>
    rw [saImmOiRtObjectUpdate]
    by_cases hin : a ∈ attributeNames
    · exact ih hin _
    · have hab : a = b := (List.mem_cons.mp ha).resolve_right hin
      subst hab
      have hsame : attr' = attr := Option.some.inj (hattr'.symm.trans hattr)
      rw [update_other env hrest fun h => hin h.2]
      dsimp only
      rw [if_pos ⟨rfl, (attrMod_name env hattr').symm⟩, hsame]

omit hmods in
theorem update_objects (objectName : String) (attrMods : List SaImmAttrValues) (s : RuntimeStructs) :
    (saImmOiRtObjectUpdate objectName attrMods s).objects = s.objects ∧
    (saImmOiRtObjectUpdate objectName attrMods s).runtimeStructInstances = s.runtimeStructInstances := by
  induction attrMods generalizing s with
  | nil => exact ⟨rfl, rfl⟩
  | cons attr attrMods ih => exact ih _

end Update

/-! ## The names of the objects -/

theorem structRdn_no_comma {a : String} (h : ',' ∉ a.toList) (n : Nat) : ',' ∉ (structRdn a n).toList := by
  rw [structRdn, String.toList_append, String.toList_append, String.toList_append]
  intro hcomma
  rcases List.mem_append.mp hcomma with hcomma | hcomma
  · rcases List.mem_append.mp hcomma with hcomma | hcomma
    · rcases List.mem_append.mp hcomma with hcomma | hcomma
      · exact absurd hcomma (by decide)
      · exact h hcomma
    · exact absurd hcomma (by decide)
  · exact absurd (isDigit_of_mem_toString hcomma) (by decide)

theorem structRdn_injective {a : String} {m n : Nat} (h : structRdn a m = structRdn a n) : m = n := by
  rw [structRdn, structRdn, String.append_right_inj] at h
  exact toString_injective h

theorem structReference_injective {a objectName : String} {m n : Nat}
    (h : structReference a m objectName = structReference a n objectName) : m = n := by
  rw [structReference, structReference, String.append_left_inj, String.append_left_inj] at h
  exact structRdn_injective h

theorem rdnOf_structReference {a : String} (h : ',' ∉ a.toList) (n : Nat) (objectName : String) :
    rdnOf (structReference a n objectName) = structRdn a n := by
  have hcomma : ∀ c ∈ (structRdn a n).toList, decide (c ≠ ',') = true :=
    fun c hc => decide_eq_true fun hc' => structRdn_no_comma h n (hc' ▸ hc)
  rw [rdnOf, structReference, String.toList_append, String.toList_append, List.append_assoc,
    List.takeWhile_append_of_pos hcomma]
  have hrest : (",".toList ++ objectName.toList).takeWhile (fun c => decide (c ≠ ',')) = [] := rfl
  rw [hrest, List.append_nil, String.ofList_toList]

/-! ## The second loop -/

theorem zipIdx_map_range {α : Type} (f : Nat → α) (k : Nat) :
    ((List.range k).map f).zipIdx = (List.range k).map fun n => (f n, n) := by
  induction k with
  | zero => rfl
  | succ k ih =>
    rw [List.range_succ, List.map_append, List.map_append, List.zipIdx_append, ih, List.length_map,
      List.length_range,
      Nat.zero_add]
    rfl

def structObject (structClassName attrName : String) (n : Nat) (members : List RuntimeMember) : StructObject :=
  ⟨structClassName, some ⟨"id", .saString, [.string (structRdn attrName n)]⟩ ::
    (memberAttrs env.names members).map some ++ [none]⟩

structure Made (u : RtUpdate) (structClassName attrName : String) (values : List (List RuntimeMember)) (k : Nat)
    (s s' : RuntimeStructs) : Prop where
  stored : s'.stored = s.stored
  listed : s'.runtimeStructInstances = s.runtimeStructInstances
  objects : ∀ dn object, s'.objects dn = some object ↔
    ∃ n members, n < k ∧ values[n]? = some members ∧ dn = structReference attrName n u.objectName ∧
      object = structObject env structClassName attrName n members

theorem saImmOiRtObjectCreate_new {dn : String} {s : RuntimeStructs} (h : s.objects dn = none)
    (object : StructObject) :
    saImmOiRtObjectCreate dn object s =
      { s with objects := fun dn' => if dn' = dn then some object else s.objects dn' } := by
  rw [saImmOiRtObjectCreate, h]
  rfl

theorem createStructObject_made {u : RtUpdate} {structClassName a : String}
    {values : List (List RuntimeMember)} {k : Nat}
    (hcomma : ',' ∉ a.toList) {s s' : RuntimeStructs} (hmade : Made env u structClassName a values k s s')
    {members : List RuntimeMember} (hmembers : values[k]? = some members)
    (hfit : ReferencesFit env.names members) :
    ∃ s'', createStructObject env u.objectName structClassName values s'
      (.name (structReference a k u.objectName), k) =
        some s'' ∧ Made env u structClassName a values (k + 1) s s'' := by
  rw [createStructObject]
  dsimp only
  rw [hmembers]
  dsimp only
  rw [rdnOf_structReference hcomma, createRuntimeStructAttrMods_eq env.names _ hfit]
  refine ⟨saImmOiRtObjectCreate (structReference a k u.objectName)
    (structObject env structClassName a k members) s', rfl, ?_⟩
  -- The reference is new, so the object is made.
  have hnew : s'.objects (structReference a k u.objectName) = none := by
    by_contra hthere
    obtain ⟨object, hobject⟩ := Option.ne_none_iff_exists'.mp hthere
    obtain ⟨n, _, hn, -, hsame, -⟩ := (hmade.objects _ _).mp hobject
    exact absurd (structReference_injective hsame) (Nat.ne_of_gt hn)
  rw [saImmOiRtObjectCreate_new hnew]
  refine ⟨hmade.stored, hmade.listed, fun dn object => ?_⟩
  dsimp only
  constructor
  · intro hobject
    by_cases hdn : dn = structReference a k u.objectName
    · rw [if_pos hdn] at hobject
      exact ⟨k, members, Nat.lt_succ_self k, hmembers, hdn, (Option.some.inj hobject).symm⟩
    · rw [if_neg hdn] at hobject
      obtain ⟨n, members', hn, hrest⟩ := (hmade.objects dn object).mp hobject
      exact ⟨n, members', Nat.lt_succ_of_lt hn, hrest⟩
  · rintro ⟨n, members', hn, hmembers', rfl, rfl⟩
    rcases Nat.lt_succ_iff_lt_or_eq.mp hn with hn | rfl
    · rw [if_neg fun hsame => absurd (structReference_injective hsame) (Nat.ne_of_lt hn)]
      exact (hmade.objects _ _).mpr ⟨n, members', hn, hmembers', rfl, rfl⟩
    · rw [if_pos rfl, Option.some.inj (hmembers.symm.trans hmembers')]

theorem createStructObject_foldlM (structClassName : String) {u : RtUpdate} {a : String}
    {values : List (List RuntimeMember)}
    (hcomma : values ≠ [] → ',' ∉ a.toList) (hfit : ∀ members ∈ values, ReferencesFit env.names members)
    {s : RuntimeStructs} (hnone : ∀ dn, s.objects dn = none) {k : Nat} (hk : k ≤ values.length) :
    ∃ s', ((List.range k).map fun n => (SaImmAttrValue.name (structReference a n u.objectName), n)).foldlM
        (createStructObject env u.objectName structClassName values) s = some s' ∧
      Made env u structClassName a values k s s' := by
  induction k with
  | zero =>
    refine ⟨s, rfl, rfl, rfl, fun dn object => ⟨fun hobject => ?_, fun ⟨_, _, hn, _⟩ => ?_⟩⟩
    swap
    · exact absurd hn (Nat.not_lt_zero _)
    rw [hnone] at hobject
    cases hobject
  | succ k ih =>
    obtain ⟨s', hfold, hmade⟩ := ih (Nat.le_of_succ_le hk)
    have hvalues : values ≠ [] := List.ne_nil_of_length_pos (Nat.lt_of_lt_of_le (Nat.succ_pos k) hk)
    have hmember := List.getElem_mem (Nat.lt_of_succ_le hk)
    obtain ⟨s'', hcreate, hmade'⟩ := createStructObject_made env (hcomma hvalues) hmade
      (List.getElem?_eq_getElem (Nat.lt_of_succ_le hk)) (hfit _ hmember)
    refine ⟨s'', ?_, hmade'⟩
    rw [List.range_succ, List.map_append, List.foldlM_append, hfold, Option.bind_eq_bind, Option.bind_some,
      List.map_singleton, List.foldlM_cons, hcreate]
    rfl

section Create

variable {u : RtUpdate} {structClassName : String} {values : List (List RuntimeMember)}

theorem createStructObjects_none {attributeNames : List String} {attrMods : List SaImmAttrValues}
    (hmods : List.Forall₂ (fun a attr => u.attrMod env a = some attr) attributeNames attrMods)
    (hvalues : ∀ b ∈ attributeNames, u.nrOfValues b = 0) (s : RuntimeStructs) :
    (attrMods.zip attributeNames).foldlM (fun s x =>
      if x.1.attrName = x.2 then
        x.1.attrValues.zipIdx.foldlM (createStructObject env u.objectName structClassName values) s
      else some s) s = some s := by
  refine foldlM_unchanged fun x hx => ?_
  have hattr := (List.forall₂_iff_zip.mp hmods.flip).2 hx
  have hempty := attrMod_no_values env hattr (hvalues x.2 (List.of_mem_zip hx).2)
  rw [hempty]
  split <;> rfl

variable (structClassName) in
theorem createStructObjects_alone {attributeNames : List String} {attrMods : List SaImmAttrValues} {a : String}
    (hmods : List.Forall₂ (fun a attr => u.attrMod env a = some attr) attributeNames attrMods)
    (halone : attributeNames.Pairwise u.Apart)
    (ha : a ∈ attributeNames) (hstruct : u.structs a = some values) (hcomma : values ≠ [] → ',' ∉ a.toList)
    (hfit : ∀ members ∈ values, ReferencesFit env.names members)
    {s : RuntimeStructs} (hnone : ∀ dn, s.objects dn = none) :
    ∃ s', (attrMods.zip attributeNames).foldlM (fun s x =>
        if x.1.attrName = x.2 then
          x.1.attrValues.zipIdx.foldlM (createStructObject env u.objectName structClassName values) s
        else some s) s = some s' ∧
      Made env u structClassName a values values.length s s' := by
  have hsome : u.structs a ≠ none := fun h => by rw [hstruct] at h; cases h
  induction hmods with
  | nil => cases ha
  | @cons b attr attributeNames attrMods hattr hrest ih =>
    obtain ⟨hhead, hpairs⟩ := List.pairwise_cons.mp halone
    rw [List.zip_cons_cons, List.foldlM_cons]
    dsimp only
    rw [if_pos (attrMod_name env hattr)]
    by_cases hab : b = a
    · subst hab
      have huncut : attr.attrValues.zipIdx =
          (List.range values.length).map fun n => (SaImmAttrValue.name (structReference b n u.objectName), n) := by
        rw [attrMod_struct env hattr hstruct, zipIdx_map_range]
      obtain ⟨s', hfold, hmade⟩ := createStructObject_foldlM env structClassName hcomma hfit hnone
        (le_refl values.length)
      refine ⟨s', ?_, hmade⟩
      rw [huncut, hfold]
      exact createStructObjects_none env hrest (fun c hc => (hhead c hc).1 hsome) s'
    · have hin : a ∈ attributeNames := (List.mem_cons.mp ha).resolve_left fun h => hab h.symm
      rw [attrMod_no_values env hattr ((hhead a hin).2 hsome)]
      exact ih hpairs hin

/-- What the second loop makes: objects for the values of structs whose class is found. -/
structure AllMade (u : RtUpdate) (s s' : RuntimeStructs) : Prop where
  stored : s'.stored = s.stored
  listed : s'.runtimeStructInstances = s.runtimeStructInstances
  objects : ∀ dn object, s'.objects dn = some object ↔
    ∃ a ∈ u.attributeNames, ∃ values structClassName, u.structs a = some values ∧
      u.getStructClassNameFromCOM a = some structClassName ∧
      ∃ n members, n < values.length ∧ values[n]? = some members ∧ dn = structReference a n u.objectName ∧
        object = structObject env structClassName a n members

theorem createInstances_simple {attrMods : List SaImmAttrValues} {a : String} (h : u.structs a = none)
    (s : RuntimeStructs) : createInstances env u attrMods s a = some s := by
  unfold RtUpdate.structs at h
  unfold createInstances
  split at h
  · cases h
  · rfl

theorem createInstances_struct {attrMods : List SaImmAttrValues} {a : String} (h : u.structs a = some values)
    (s : RuntimeStructs) :
    createInstances env u attrMods s a =
      match u.getStructClassNameFromCOM a with
      | none => some s
      | some structClassName => createStructObjects env u structClassName values attrMods s := by
  unfold RtUpdate.structs at h
  unfold createInstances
  split at h
  · cases h
    rfl
  · cases h

theorem nrOfValues_struct {a : String} (h : u.structs a = some values) : u.nrOfValues a = values.length := by
  unfold RtUpdate.structs at h
  unfold RtUpdate.nrOfValues
  split at h
  · next hanswer =>
    cases h
    rw [hanswer]
  · cases h

theorem RtUpdate.Apart.symm {a b : String} (h : u.Apart a b) : u.Apart b a := ⟨h.2, h.1⟩

theorem RtUpdate.Apart.simple {a b : String} (h : u.Apart a b) (hstruct : u.structs a = some values)
    (hvalues : values ≠ []) :
    u.structs b = none := by
  by_contra hb
  have hempty := h.2 hb
  rw [nrOfValues_struct hstruct] at hempty
  exact hvalues (List.eq_nil_of_length_eq_zero hempty)

theorem createInstances_alone {attributeNames : List String} {attrMods : List SaImmAttrValues} {a : String}
    (halone : attributeNames.Pairwise u.Apart) (ha : a ∈ attributeNames) (hstruct : u.structs a = some values)
    (hvalues : values ≠ []) {s s' : RuntimeStructs} (hcreate : createInstances env u attrMods s a = some s') :
    attributeNames.foldlM (createInstances env u attrMods) s = some s' := by
  induction attributeNames with
  | nil => cases ha
  | cons b attributeNames ih =>
    obtain ⟨hhead, hpairs⟩ := List.pairwise_cons.mp halone
    rw [List.foldlM_cons]
    by_cases hab : b = a
    · subst hab
      rw [hcreate]
      exact foldlM_unchanged fun c hc => createInstances_simple env ((hhead c hc).simple hstruct hvalues) s'
    · have hin : a ∈ attributeNames := (List.mem_cons.mp ha).resolve_left fun h => hab h.symm
      rw [createInstances_simple env ((hhead a hin).symm.simple hstruct hvalues)]
      exact ih hpairs hin

theorem createInstances_foldlM {ret : Returned} (hcomplete : Complete env ret u) {attrMods : List SaImmAttrValues}
    (hmods : List.Forall₂ (fun a attr => u.attrMod env a = some attr) u.attributeNames attrMods)
    {s : RuntimeStructs}
    (hnone : ∀ dn, s.objects dn = none) :
    ∃ s', u.attributeNames.foldlM (createInstances env u attrMods) s = some s' ∧ AllMade env u s s' := by
  have hsymm : Std.Symm u.Apart := ⟨fun _ _ h => h.symm⟩
  have hapart : ∀ a ∈ u.attributeNames, ∀ b ∈ u.attributeNames, a ≠ b → u.Apart a b := fun a ha b hb hab =>
    hcomplete.alone.forall ha hb hab
  by_cases hvalues : ∃ a ∈ u.attributeNames, ∃ values, u.structs a = some values ∧ values ≠ []
  · obtain ⟨a, ha, values, hstruct, hne⟩ := hvalues
    obtain ⟨structClassName, hclass⟩ := Option.ne_none_iff_exists'.mp (hcomplete.className a ha values hstruct hne)
    obtain ⟨s', hcreate, hmade⟩ := createStructObjects_alone env structClassName hmods
      hcomplete.alone ha hstruct (hcomplete.names a ha values hstruct) (hcomplete.members a ha values hstruct) hnone
    refine ⟨s', createInstances_alone env hcomplete.alone ha hstruct hne
      (by rw [createInstances_struct env hstruct, hclass]; exact hcreate), hmade.stored, hmade.listed,
        fun dn object => ?_⟩
    rw [hmade.objects]
    constructor
    · rintro ⟨n, members, hobject⟩
      exact ⟨a, ha, values, structClassName, hstruct, hclass, n, members, hobject⟩
    · rintro ⟨b, hb, values', structClassName', hstruct', hclass', n, members, hn, hobject⟩
      have hab : a = b := by
        by_contra hab
        rw [(hapart a ha b hb hab).simple hstruct hne] at hstruct'
        cases hstruct'
      subst hab
      rw [hstruct] at hstruct'
      rw [hclass] at hclass'
      cases hstruct'
      cases hclass'
      exact ⟨n, members, hn, hobject⟩
  · have hempty : ∀ a ∈ u.attributeNames, ∀ values, u.structs a = some values → values = [] :=
      fun a ha values hstruct =>
      by_contra fun hne => hvalues ⟨a, ha, values, hstruct, hne⟩
    refine ⟨s, foldlM_unchanged fun a ha => ?_, rfl, rfl, fun dn object => ?_⟩
    · cases hstruct : u.structs a with
      | none => exact createInstances_simple env hstruct s
      | some values =>
        rw [createInstances_struct env hstruct]
        cases u.getStructClassNameFromCOM a with
        | none => rfl
        | some structClassName =>
          refine createStructObjects_none env hmods (fun b hb => ?_) s
          by_cases hab : a = b
          · rw [← hab, nrOfValues_struct hstruct, hempty a ha values hstruct]
            rfl
          · exact (hapart a ha b hb hab).1 fun h => by rw [hstruct] at h; cases h
    · rw [hnone]
      constructor
      · intro h
        cases h
      · rintro ⟨a, ha, values, structClassName, hstruct, -, n, members, hn, -⟩
        rw [hempty a ha values hstruct] at hn
        exact absurd hn (Nat.not_lt_zero n)

end Create

/-! ## Runs -/

/-- References and objects match, and every object is on the list that the next callback deletes. -/
structure RtInvariant (s : RuntimeStructs) (ret : Returned) : Prop extends ReferencesMatch env s ret where
  listed : ∀ dn, s.objects dn ≠ none → dn ∈ s.runtimeStructInstances
  fit : ∀ name ∈ s.runtimeStructInstances, env.names.Fits name

section Runs

variable {u : RtUpdate} {s : RuntimeStructs} {ret : Returned}

theorem ReferencesMatch.stored_nil {env : RtEnv} (h : ReferencesMatch env s ret) {object a : String}
    {values : List (List RuntimeMember)} (hret : ret object a = some values) (hvalues : values = []) :
    s.stored object a = [] := by
  have hnamed := h.named object a values hret
  rw [hvalues] at hnamed
  exact List.forall₂_nil_right_iff.mp hnamed

theorem RtInvariant.fails {env : RtEnv} (h : RtInvariant env s ret)
    (hidle : ∀ object attrName values, ret object attrName = some values → values = []) {s' : RuntimeStructs}
    (hstored : s'.stored = s.stored) (hnone : ∀ dn, s'.objects dn = none)
    (hfit : ∀ name ∈ s'.runtimeStructInstances, env.names.Fits name) : RtInvariant env s' ret := by
  refine ⟨⟨fun object a values hret => ?_, fun dn hdn => absurd (hnone dn) hdn⟩,
    fun dn hdn => absurd (hnone dn) hdn, hfit⟩
  have hvalues := hidle object a values hret
  rw [hstored, h.stored_nil hret hvalues, hvalues]
  exact List.Forall₂.nil

theorem NamesObject.all (structClassName : String) {a : String} {values : List (List RuntimeMember)}
    {s : RuntimeStructs} (hfit : ∀ members ∈ values, ReferencesFit env.names members)
    (hobjects : ∀ n members, values[n]? = some members →
      s.objects (structReference a n u.objectName) = some (structObject env structClassName a n members)) :
    List.Forall₂ (NamesObject env s u.objectName)
      ((List.range values.length).map fun n => .name (structReference a n u.objectName)) values := by
  rw [List.forall₂_iff_get]
  refine ⟨by rw [List.length_map, List.length_range], fun n hn hn' => ?_⟩
  have hreference : ((List.range values.length).map fun n =>
      SaImmAttrValue.name (structReference a n u.objectName)).get ⟨n, hn⟩ =
      .name (structReference a n u.objectName) := by
    rw [List.get_eq_getElem, List.getElem_map, List.getElem_range]
  rw [hreference]
  exact ⟨structRdn a n, structObject env structClassName a n (values.get ⟨n, hn'⟩), rfl,
    hobjects n _ (List.getElem?_eq_getElem hn'),
    createRuntimeStructAttrMods_eq env.names _ (hfit _ (List.get_mem values ⟨n, hn'⟩))⟩

theorem RtInvariant.updates {env : RtEnv} (h : RtInvariant env s ret) (hgets : u.Gets env)
    (hcomplete : Complete env ret u) {attrMods : List SaImmAttrValues}
    (hmods : List.Forall₂ (fun a attr => u.attrMod env a = some attr) u.attributeNames attrMods)
    {s₁ s₂ : RuntimeStructs} (hstored : s₁.stored = s.stored)
    (hlisted : s₁.runtimeStructInstances = u.attributeNames.flatMap u.references)
    (hfit : ∀ name ∈ s₁.runtimeStructInstances, env.names.Fits name)
    (hmade : AllMade env u (saImmOiRtObjectUpdate u.objectName attrMods s₁) s₂) :
    RtInvariant env s₂ (u.returned ret) := by
  have hown : ∀ a ∈ u.attributeNames, ∀ values, u.structs a = some values → s₂.stored u.objectName a =
      (List.range values.length).map fun n => .name (structReference a n u.objectName) := by
    intro a ha values hstruct
    obtain ⟨attr, hattr⟩ := Option.ne_none_iff_exists'.mp (hgets a ha)
    rw [hmade.stored, update_own env hmods ha hattr, attrMod_struct env hattr hstruct]
  have hlist : s₂.runtimeStructInstances = s₁.runtimeStructInstances := by
    rw [hmade.listed, (update_objects u.objectName attrMods s₁).2]
  refine ⟨⟨fun object a values hret => ?_, fun dn hdn => ?_⟩, fun dn hdn => ?_, fun name hname => ?_⟩
  · unfold RtUpdate.returned at hret
    split at hret
    · next hin =>
      obtain ⟨rfl, ha⟩ := hin
      rw [hown a ha values hret]
      by_cases hvalues : values = []
      · rw [hvalues]
        exact List.Forall₂.nil
      · obtain ⟨structClassName, hclass⟩ :=
          Option.ne_none_iff_exists'.mp (hcomplete.className a ha values hret hvalues)
        refine NamesObject.all env structClassName (hcomplete.members a ha values hret)
          fun n members hmembers => ?_
        exact (hmade.objects _ _).mpr ⟨a, ha, values, structClassName, hret, hclass, n, members,
          (List.getElem?_eq_some_iff.mp hmembers).1, hmembers, rfl, rfl⟩
    · next hout =>
      have hvalues : values = [] := by_contra fun hne => hout (hcomplete.replaced object a values hret hne)
      rw [hmade.stored, update_other env hmods hout, hstored, h.stored_nil hret hvalues, hvalues]
      exact List.Forall₂.nil
  · obtain ⟨object, hobject⟩ := Option.ne_none_iff_exists'.mp hdn
    obtain ⟨a, ha, values, _, hstruct, -, n, _, hn, -, rfl, -⟩ := (hmade.objects dn object).mp hobject
    refine ⟨u.objectName, a, values, ?_, ?_⟩
    · rw [RtUpdate.returned, if_pos ⟨rfl, ha⟩, hstruct]
    · rw [hown a ha values hstruct]
      exact List.mem_map.mpr ⟨n, List.mem_range.mpr hn, rfl⟩
  · obtain ⟨object, hobject⟩ := Option.ne_none_iff_exists'.mp hdn
    obtain ⟨a, ha, values, _, hstruct, -, n, _, hn, -, rfl, -⟩ := (hmade.objects dn object).mp hobject
    rw [hlist, hlisted]
    refine List.mem_flatMap.mpr ⟨a, ha, ?_⟩
    rw [RtUpdate.references, hstruct]
    exact List.mem_map.mpr ⟨n, List.mem_range.mpr hn, rfl⟩
  · exact hfit name (hlist ▸ hname)

theorem rtAttrUpdate_fits (h : RtInvariant env s ret) (hfits : Fits env ret u) :
    ∃ err s', rtAttrUpdate env u s = some (err, s') ∧
      RtInvariant env s' (if err = .ok then u.returned ret else ret) := by
  obtain ⟨removed, hremove, hkept, hempty, hremoved⟩ := removeStructInstances_spec env h.fit h.listed
  have hnames : ∀ name ∈ removed.runtimeStructInstances, env.names.Fits name := by
    rw [hempty]
    exact fun name hname => absurd hname List.not_mem_nil
  obtain ⟨⟨s₁, result⟩, hcollect, honly, hfit, hcollected⟩ :=
    collectAttrs_spec env u hfits.names (removed, s.runtimeStructInstances) hnames
  rw [rtAttrUpdate, hremove, Option.bind_some, hcollect]
  have hnone : ∀ dn, s₁.objects dn = none := fun dn => by_contra fun hdn => honly.objects dn hdn (hremoved dn)
  have hstored : s₁.stored = s.stored := honly.stored.trans hkept
  rcases hcollected with ⟨⟨a, ha, hmissing⟩, err, herr, hend⟩ | ⟨attrMods, hmods, hend, hlisted⟩
  · dsimp only at hend
    subst hend
    refine ⟨err, s₁, rfl, ?_⟩
    rw [if_neg herr]
    exact h.fails (hfits.fails fun hgets => hgets a ha hmissing) hstored hnone hfit
  · dsimp only at hend hlisted
    subst hend
    rw [hempty, List.nil_append] at hlisted
    have hgets : u.Gets env := by
      intro a ha hmissing
      obtain ⟨attr, -, hattr⟩ := exists_of_mem_right hmods.flip ha
      exact Option.some_ne_none attr (hattr.symm.trans hmissing)
    have hcomplete := hfits.gets hgets
    have hupdated : ∀ dn, (saImmOiRtObjectUpdate u.objectName attrMods s₁).objects dn = none := fun dn => by
      rw [(update_objects u.objectName attrMods s₁).1, hnone]
    obtain ⟨s₂, hcreate, hmade⟩ := createInstances_foldlM env hcomplete hmods hupdated
    refine ⟨.ok, s₂, ?_, ?_⟩
    · dsimp only
      rw [hcreate]
      rfl
    · rw [if_pos rfl]
      exact h.updates hgets hcomplete hmods hstored hlisted hfit hmade

end Runs

theorem ReachedBy.invariant {s : RuntimeStructs} {ret : Returned} (h : ReachedBy env (Fits env) s ret) :
    RtInvariant env s ret := by
  induction h with
  | start =>
    exact ⟨⟨fun _ _ _ hret => (by cases hret), fun _ hdn => absurd rfl hdn⟩, fun _ hdn => absurd rfl hdn,
      fun _ hname => absurd hname List.not_mem_nil⟩
  | update _ hfits hupdate ih =>
    obtain ⟨err', s'', hupdate', hinvariant⟩ := rtAttrUpdate_fits env ih hfits
    rw [hupdate] at hupdate'
    cases hupdate'
    exact hinvariant

/-- While each callback reads all that has struct values, and a struct only with attributes that have none, no
callback goes wrong, and references and objects match. -/
theorem runtimeStructs_match {s : RuntimeStructs} {ret : Returned} (h : ReachedBy env (Fits env) s ret) :
    ReferencesMatch env s ret ∧ ∀ u, Fits env ret u → rtAttrUpdate env u s ≠ none := by
  refine ⟨(h.invariant env).toReferencesMatch, fun u hfits hnone => ?_⟩
  obtain ⟨err, s', hupdate, -⟩ := rtAttrUpdate_fits env (h.invariant env) hfits
  rw [hnone] at hupdate
  cases hupdate

def plainRtEnv : RtEnv :=
  ⟨⟨256, id, fun _ => 0, id, fun _ => 0, fun _ => 0, fun _ => 0, 0⟩, id, false⟩

/-- One struct attribute of an object is read, which has one value without members. -/
def readStruct (objectName : String) : RtUpdate :=
  ⟨objectName, ["s"], [⟨"s", .saName⟩], fun _ => some (some (.struct [[]])), fun _ => some "S"⟩

theorem readStruct_fits : Fits plainRtEnv (fun _ _ => none) (readStruct "a=1") := by
  have hstructs : ∀ a values, (readStruct "a=1").structs a = some values → values = [[]] :=
    fun a values h => (Option.some.inj h).symm
  have hname : ∀ a ∈ (readStruct "a=1").attributeNames, a = "s" := fun a ha => List.mem_singleton.mp ha
  refine ⟨fun _ => ⟨fun _ _ _ hret => ?_, List.pairwise_singleton _ _, fun _ _ _ _ _ => Option.some_ne_none "S",
    fun a ha _ _ _ => ?_, fun a ha values h members hmembers => ?_⟩, fun _ _ _ _ hret => ?_, fun a ha => ?_⟩
  · cases hret
  · rw [hname a ha]
    decide
  · rw [hstructs a values h, List.mem_singleton] at hmembers
    rw [hmembers]
    exact fun m hm => absurd hm List.not_mem_nil
  · cases hret
  · rw [hname a ha]
    decide +kernel

theorem runtimeStructs_match_read :
    ∃ s, ReferencesMatch plainRtEnv s ((readStruct "a=1").returned fun _ _ => none) ∧
      s.stored "a=1" "s" = [.name "id=s_0,a=1"] := by
  obtain ⟨s, hupdate⟩ : ∃ s, rtAttrUpdate plainRtEnv (readStruct "a=1") .empty = some (.ok, s) := ⟨_, rfl⟩
  refine ⟨s, (runtimeStructs_match plainRtEnv (.update .start readStruct_fits hupdate)).1, ?_⟩
  have hstored : ((rtAttrUpdate plainRtEnv (readStruct "a=1") .empty).map fun x => x.2.stored "a=1" "s") =
      some [.name "id=s_0,a=1"] := by decide +kernel
  rw [hupdate] at hstored
  exact Option.some.inj hstored

/-- Two struct attributes of one object, of which only the second has a member. -/
def readTwoStructs : RtUpdate :=
  ⟨"a=1", ["s", "t"], [⟨"s", .saName⟩, ⟨"t", .saName⟩],
    fun a => some (some (.struct [if a = "t" then [⟨some "x", some .int32, [.word 5]⟩] else []])), fun a => some a⟩

/-- A read of one object deletes what another object refers to, and of two structs in one read the second gets the
members of the first. -/
theorem not_runtimeStructs_match :
    (¬ ∀ s ret, ReachedBy plainRtEnv (fun _ u => u = readStruct "a=1" ∨ u = readStruct "b=1") s ret →
      ReferencesMatch plainRtEnv s ret) ∧
    ¬ ∀ s ret, ReachedBy plainRtEnv (fun _ u => u = readTwoStructs) s ret → ReferencesMatch plainRtEnv s ret := by
  constructor
  · intro hall
    obtain ⟨s, hupdate⟩ : ∃ s, rtAttrUpdate plainRtEnv (readStruct "a=1") .empty = some (.ok, s) := ⟨_, rfl⟩
    obtain ⟨s', hupdate'⟩ : ∃ s', rtAttrUpdate plainRtEnv (readStruct "b=1") s = some (.ok, s') := by
      have hok : ((rtAttrUpdate plainRtEnv (readStruct "a=1") .empty).bind fun x =>
          (rtAttrUpdate plainRtEnv (readStruct "b=1") x.2).map Prod.fst) = some .ok := by decide +kernel
      rw [hupdate, Option.bind_some] at hok
      obtain ⟨⟨_, s'⟩, hupdate', rfl⟩ := Option.map_eq_some_iff.mp hok
      exact ⟨s', hupdate'⟩
    have hmatch := hall s' _ (.update (.update .start (Or.inl rfl) hupdate) (Or.inr rfl) hupdate')
    have hnamed := hmatch.named "a=1" "s" [[]] rfl
    have hdangling : ((rtAttrUpdate plainRtEnv (readStruct "a=1") .empty).bind fun x =>
        (rtAttrUpdate plainRtEnv (readStruct "b=1") x.2).map fun x =>
          (x.2.stored "a=1" "s", x.2.objects "id=s_0,a=1")) = some ([.name "id=s_0,a=1"], none) := by decide +kernel
    rw [hupdate, Option.bind_some, hupdate', Option.map_some] at hdangling
    obtain ⟨hstored, hobject⟩ := Prod.ext_iff.mp (Option.some.inj hdangling)
    dsimp only at hstored hobject
    rw [hstored] at hnamed
    cases hnamed with
    | cons h _ =>
      obtain ⟨rdn, o, hv, ho, -⟩ := h
      rw [← SaImmAttrValue.name.inj hv, hobject] at ho
      cases ho
  · intro hall
    obtain ⟨s, hupdate⟩ : ∃ s, rtAttrUpdate plainRtEnv readTwoStructs .empty = some (.ok, s) := ⟨_, rfl⟩
    have hmatch := hall s _ (.update .start rfl hupdate)
    have hnamed := hmatch.named "a=1" "t" [[⟨some "x", some .int32, [.word 5]⟩]] rfl
    have hother : ((rtAttrUpdate plainRtEnv readTwoStructs .empty).map fun x =>
        (x.2.stored "a=1" "t", (x.2.objects "id=t_0,a=1").map fun o => o.attrValues.length)) =
        some ([.name "id=t_0,a=1"], some 2) := by decide +kernel
    rw [hupdate, Option.map_some] at hother
    obtain ⟨hstored, hlength⟩ := Prod.ext_iff.mp (Option.some.inj hother)
    dsimp only at hstored hlength
    rw [hstored] at hnamed
    cases hnamed with
    | cons h _ =>
      obtain ⟨rdn, o, hv, ho, hattrs⟩ := h
      rw [← SaImmAttrValue.name.inj hv] at ho
      rw [ho, Option.map_some] at hlength
      have hfit : ReferencesFit plainRtEnv.names [⟨some "x", some .int32, [.word 5]⟩] := by
        intro m hm hreference
        obtain rfl := List.mem_singleton.mp ((List.takeWhile_sublist _).subset hm)
        cases hreference
      rw [createRuntimeStructAttrMods_eq _ _ hfit] at hattrs
      rw [← Option.some.inj hattrs] at hlength
      exact absurd (show 3 = 2 from Option.some.inj hlength) (by decide)

end ComSA.OIproxy
