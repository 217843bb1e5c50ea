import ComSA.Motransaction.StructReplace

/-!
# The calls with struct attributes

`createImmMo` and `setImmMoAttribute` as they are, with values that are structs. Writing a
struct makes further calls, one for each instance and each member. Taken together they are
a list that is worked through up to the first failure.
-/

namespace ComSA

open ModifiedObjects

inductive AttributeValue where
  | simple (v : MoAttributeValueContainer)
  | struct (values : List StructValue)

structure BridgeEnv extends StructEnv where
  /-- The struct that the MOM gives an attribute of the class of an object. -/
  structDatatype : List String → String → Option String

def joinDn (dn : List String) : String := ",".intercalate dn

def Dn.ofString (dn : String) : Dn := ⟨splitDn dn, splitDn_ne_nil dn⟩

theorem noComma_of_mem_splitChars {cs part : List Char} (h : part ∈ splitChars cs) : ',' ∉ part := by
  induction cs generalizing part with
  | nil =>
    rw [List.mem_singleton.mp h]
    exact List.not_mem_nil
  | cons c cs ih =>
    rw [splitChars] at h
    split at h <;> rename_i hc
    · rcases List.mem_cons.mp h with rfl | h
      · exact List.not_mem_nil
      · exact ih h
    · split at h <;> rename_i heq
      · rw [List.mem_singleton.mp h]
        simpa using Ne.symm hc
      · rcases List.mem_cons.mp h with rfl | h
        · have hpart := ih (heq ▸ List.mem_cons_self)
          simpa using ⟨Ne.symm hc, hpart⟩
        · exact ih (heq ▸ List.mem_cons_of_mem _ h)

theorem noComma_of_mem_splitDn {dn part : String} (h : part ∈ splitDn dn) : ',' ∉ part.toList := by
  obtain ⟨cs, hcs, rfl⟩ := List.mem_map.mp h
  rw [String.toList_ofList]
  exact noComma_of_mem_splitChars hcs

/-- What `createImmMo` is called with. The name of the parent was split at its commas. -/
structure CreateMoCall where
  parent : List String
  split : ∀ part ∈ parent, ',' ∉ part.toList
  className : String
  keyAttributeName : String
  keyAttributeValue : String
  initialAttributes : List (String × AttributeValue)

namespace CreateMoCall

abbrev withAttributes (m : CreateMoCall) (initialAttributes : List (String × MoAttributeValueContainer)) :
    CreateCall :=
  ⟨m.parent, m.className, m.keyAttributeName, m.keyAttributeValue, initialAttributes⟩

abbrev bare (m : CreateMoCall) : CreateCall := m.withAttributes []

def dn (m : CreateMoCall) : List String := m.bare.dn

theorem splitDn_joinDn (m : CreateMoCall) : splitDn (joinDn m.dn) = m.dn := by
  refine splitDn_intercalate m.bare.dn_ne_nil fun part hpart => ?_
  rcases List.mem_append.mp hpart with hparent | hrdn
  · exact m.split part hparent
  · exact noComma_of_mem_splitDn hrdn

end CreateMoCall

namespace Bridge
variable (env : BridgeEnv)

/-! ## The calls -/

/-- There is no result where deleting an instance is undefined. -/
def setImmMoAttribute (dn attributeName : String) (v : AttributeValue) (c : Cache) :
    Option (MafReturn × Cache) :=
  match v with
  | .simple v => some (ComSA.setImmMoAttribute env.tr (splitDn dn) attributeName v c)
  | .struct values =>
    if !env.tr.isDnListValid (splitDn dn) attributeName then some (.failure, c)
    else if c.isDeleted (splitDn dn) then some (.failure, c)
    else writeStructToImm env.toStructEnv dn attributeName values c

def structAttributes (m : CreateMoCall) : List (String × String) :=
  (env.tr.comAttributeList m.dn).filterMap fun attributeName =>
    if attributeName ∈ m.initialAttributes.map Prod.fst then
      (env.structDatatype m.dn attributeName).map (attributeName, ·)
    else none

/-- The first instance of a struct attribute, which `createImmMo` creates below the new object. -/
def firstInstance (m : CreateMoCall) (attributeName structName : String) : CreateCall :=
  let id := instanceId attributeName 0
  { parent := m.dn
    className := structName
    keyAttributeName := Translator.beforeEqual
      (Translator.convert3GPPNameFragmentToImmNameFragment (uniqueId structName id))
    keyAttributeValue := id
    initialAttributes := [] }

def firstReference (m : CreateMoCall) (attributeName structName : String) : MoAttributeValueContainer :=
  ⟨.reference, [.text (joinDn (firstInstance m attributeName structName).dn)]⟩

/-- The loop over the struct attributes. The IMM name of the object has not been filled in here. -/
def createStructs (m : CreateMoCall) : List (String × String) → Cache → MafReturn × Cache
  | [], c => (.ok, c)
  | (attributeName, structName) :: rest, c =>
    match createImmMo env.tr (firstInstance m attributeName structName) c with
    | (.ok, c) =>
      match c.updateObjectAttribute m.dn "" attributeName (firstReference m attributeName structName) with
      | (true, c) => createStructs m rest c
      | (false, c) => (.failure, c)
    | r => r

/-- Sets the initial attributes one after the other. One that the class does not have is skipped, and one that
fails does not stop the others. -/
def setInitialAttributes (dn : String) :
    List (String × AttributeValue) → MafReturn → Cache → Option (MafReturn × Cache)
  | [], ret, c => some (ret, c)
  | (name, v) :: rest, ret, c =>
    if name ∈ env.tr.comAttributeList (splitDn dn) then
      (setImmMoAttribute env dn name v c).bind fun r =>
        setInitialAttributes dn rest (if r.1 = .ok then ret else r.1) r.2
    else setInitialAttributes dn rest ret c

def createImmMo (m : CreateMoCall) (c : Cache) : Option (MafReturn × Cache) :=
  if !m.keyAttributeValue.toList.all isGraph then some (.invalidArgument, c)
  else if !env.tr.isDnListValid m.parent m.className then some (.failure, c)
  else
    match createStructs env m (structAttributes env m) (recordCreation env.tr m.bare c) with
    | (.ok, c) => setInitialAttributes env (joinDn m.dn) m.initialAttributes .ok c
    | r => some r

end Bridge

/-! ## Calls without structs -/

def simpleAttribute : String × AttributeValue → Option (String × MoAttributeValueContainer)
  | (name, .simple v) => some (name, v)
  | (_, .struct _) => none

/-- A call without a struct among its initial attributes, neither by the MOM nor by a value. -/
def CreateMoCall.withoutStructs (env : BridgeEnv) (m : CreateMoCall) : Option CreateCall :=
  if Bridge.structAttributes env m = [] then
    (m.initialAttributes.mapM simpleAttribute).map m.withAttributes
  else none

section
variable {env : BridgeEnv} {c : Cache}

theorem setInitialAttributes_simple {dn : String} {as : List (String × AttributeValue)}
    {as' : List (String × MoAttributeValueContainer)}
    (h : as.mapM simpleAttribute = some as') (ret : MafReturn) (c : Cache) :
    Bridge.setInitialAttributes env dn as ret c =
      some (setInitialAttributes env.tr (splitDn dn) as' ret c) := by
  induction as generalizing as' ret c with
  | nil =>
    obtain rfl : [] = as' := Option.some.inj h
    rfl
  | cons a as ih =>
    obtain ⟨name, v⟩ := a
    cases v with
    | struct values => simp [simpleAttribute] at h
    | simple v =>
      obtain ⟨rest, hrest, rfl⟩ : ∃ rest, as.mapM simpleAttribute = some rest ∧ (name, v) :: rest = as' := by
        simpa [simpleAttribute, Option.bind_eq_some_iff] using h
      rw [Bridge.setInitialAttributes, setInitialAttributes, Bridge.setImmMoAttribute]
      by_cases hname : name ∈ env.tr.comAttributeList (splitDn dn)
      · rw [if_pos hname, if_pos hname]
        generalize setImmMoAttribute env.tr (splitDn dn) name v c = r
        obtain ⟨e, c'⟩ := r
        cases e <;> exact ih hrest _ c'
      · rw [if_neg hname, if_neg hname]
        exact ih hrest ret c

theorem withoutStructs_eq {m : CreateMoCall} {m' : CreateCall} (h : m.withoutStructs env = some m') :
    Bridge.structAttributes env m = [] ∧
    m.initialAttributes.mapM simpleAttribute = some m'.initialAttributes ∧
    m' = m.withAttributes m'.initialAttributes := by
  unfold CreateMoCall.withoutStructs at h
  split at h <;> rename_i hnone
  · obtain ⟨as, has, rfl⟩ := Option.map_eq_some_iff.mp h
    exact ⟨hnone, has, rfl⟩
  · cases h

theorem createImmMo_withoutStructs {m : CreateMoCall} {m' : CreateCall} (h : m.withoutStructs env = some m')
    (c : Cache) : Bridge.createImmMo env m c = some (createImmMo env.tr m' c) := by
  obtain ⟨hnone, has, hm'⟩ := withoutStructs_eq h
  have hset := @setInitialAttributes_simple env (joinDn m.dn) _ _ has .ok
    (recordCreation env.tr m.bare c)
  rw [m.splitDn_joinDn] at hset
  rw [hm', Bridge.createImmMo, hnone, createImmMo, apply_ite some, apply_ite some]
  dsimp only [Bridge.createStructs]
  rw [hset]
  rfl

end

/-! ## Call by call -/

/-- What the code goes by when a call that it has made itself is answered: an instance that is there already
is as good as a new one. -/
def SessionCall.answer : SessionCall → MafReturn → MafReturn
  | .create _, .ok => .ok
  | .create _, .alreadyExist => .ok
  | .create _, _ => .failure
  | _, ret => ret

def SessionCall.answered (tr : Translator) (c : Cache) (call : SessionCall) : Option (MafReturn × Cache) :=
  (call.run tr c).map fun r => (call.answer r.1, r.2)

theorem SessionCall.answered_of_ok {tr : Translator} (c : Cache) (call : SessionCall) (c' : Cache)
    (h : call.run tr c = some (.ok, c')) : call.answered tr c = some (.ok, c') := by
  rw [SessionCall.answered, h]
  cases call <;> rfl

def deleteCalls (structDns : List String) : List SessionCall :=
  structDns.map fun structDn => .delete (.ofString structDn)

def memberCalls (structDn : String) (value : StructValue) : List SessionCall :=
  value.map fun member => .set (.ofString structDn) member.1 member.2

/-- The ids of the instances that are left after some have been deleted. -/
def remainingIds (structDns ids : List String) : List String :=
  structDns.foldl (fun ids structDn => ids.filter (· ≠ idOf structDn)) ids

def instanceCalls (dn attributeName attributeTypeName : String) (myStructNameSet : List String) :
    Nat → List StructValue → List SessionCall
  | _, [] => []
  | ix, value :: values =>
    let id := instanceId attributeName ix
    (if id ∈ myStructNameSet then [] else [.create (createInstance dn attributeTypeName id)]) ++
      (memberCalls (ecimStructDn dn attributeTypeName id) value ++
        instanceCalls dn attributeName attributeTypeName myStructNameSet (ix + 1) values)

def referenceCall (tr : Translator) (dn attributeName : String) (refs : List String) : SessionCall :=
  .update (.ofString dn) (tr.mo2ImmDn (splitDn dn)) attributeName ⟨.reference, refs.map .text⟩

/-- The calls that replace the instances that `structRef` refers to. -/
def structCalls (env : StructEnv) (dn attributeName : String) (attributeValue : List StructValue)
    (structRef : List String) : List SessionCall :=
  if attributeValue = [] then deleteCalls structRef ++ [referenceCall env.tr dn attributeName []]
  else
    let attributeTypeName := env.findAttributeTypeName (splitDn dn) attributeName
    let deleted := instancesToDelete structRef attributeValue.length
    deleteCalls deleted ++
      (instanceCalls dn attributeName attributeTypeName (remainingIds deleted (structRef.map idOf)) 0 attributeValue ++
        [referenceCall env.tr dn attributeName ((List.range attributeValue.length).map fun ix =>
          ecimStructDn dn attributeTypeName (instanceId attributeName ix))])

def structReferences (env : StructEnv) (dn attributeName : String) (c : Cache) : Option (List String) :=
  match getImmMoAttributeSimple env (splitDn dn) attributeName .string c with
  | (.ok, some structRef) => some (moRefs structRef)
  | (.notExist, _) => some []
  | _ => none

section
variable {env : StructEnv} {dn attributeName attributeTypeName : String} {c : Cache}

theorem deleteInstances_eq (structDns ids : List String) (c : Cache) :
    (deleteInstances env structDns ids c).map (fun r => (r.1, r.2.2)) =
      untilFailure .ok (SessionCall.answered env.tr) (deleteCalls structDns) c := by
  induction structDns generalizing ids c with
  | nil => rfl
  | cons structDn structDns ih =>
    have hcall : SessionCall.answered env.tr c (.delete (.ofString structDn)) =
        deleteImmMo env.tr (splitDn structDn) c := by
      exact Option.map_id'
    rw [deleteCalls, List.map_cons, untilFailure_cons, hcall, deleteInstances]
    cases deleteImmMo env.tr (splitDn structDn) c with
    | none => rfl
    | some r =>
      obtain ⟨ret, c'⟩ := r
      cases ret <;> first | exact ih _ c' | rfl

theorem deleteInstances_remaining {structDns ids ids' : List String} {c c' : Cache}
    (h : deleteInstances env structDns ids c = some (.ok, ids', c')) : ids' = remainingIds structDns ids := by
  induction structDns generalizing ids c with
  | nil =>
    cases h
    rfl
  | cons structDn structDns ih =>
    rw [deleteInstances] at h
    cases hdelete : deleteImmMo env.tr (splitDn structDn) c with
    | none =>
      rw [hdelete] at h
      cases h
    | some r =>
      obtain ⟨ret, c₁⟩ := r
      rw [hdelete] at h
      cases ret <;> first | exact ih h | cases h

theorem setMembers_eq (structDn : String) (value : StructValue) (c : Cache) :
    untilFailure .ok (SessionCall.answered env.tr) (memberCalls structDn value) c =
      some (setMembers env (splitDn structDn) value c) := by
  induction value generalizing c with
  | nil => rfl
  | cons member value ih =>
    obtain ⟨memberName, memberValue⟩ := member
    have hcall : SessionCall.answered env.tr c (.set (.ofString structDn) memberName memberValue) =
        some (setImmMoAttribute env.tr (splitDn structDn) memberName memberValue c) := rfl
    rw [memberCalls, List.map_cons, untilFailure_cons, hcall, Option.bind_some, setMembers]
    generalize setImmMoAttribute env.tr (splitDn structDn) memberName memberValue c = r
    obtain ⟨ret, c'⟩ := r
    cases ret <;> first | exact ih c' | rfl

theorem writeInstances_eq (myStructNameSet : List String) (ix : Nat) (values : List StructValue) (c : Cache) :
    untilFailure .ok (SessionCall.answered env.tr)
      (instanceCalls dn attributeName attributeTypeName myStructNameSet ix values) c =
      some (writeInstances env dn attributeName attributeTypeName myStructNameSet ix values c) := by
  induction values generalizing ix c with
  | nil => rfl
  | cons value values ih =>
    -- The members of this value, and the values behind it.
    have hrest : ∀ c, untilFailure .ok (SessionCall.answered env.tr)
        (memberCalls (ecimStructDn dn attributeTypeName (instanceId attributeName ix)) value ++
          instanceCalls dn attributeName attributeTypeName myStructNameSet (ix + 1) values) c =
        let r := setMembers env (splitDn (ecimStructDn dn attributeTypeName (instanceId attributeName ix))) value c
        some (if r.1 = .ok then
          writeInstances env dn attributeName attributeTypeName myStructNameSet (ix + 1) values r.2 else r) := by
      intro c
      rw [untilFailure_append, setMembers_eq, Option.bind_some]
      generalize setMembers env _ value c = r
      obtain ⟨ret, c'⟩ := r
      cases ret <;> first | exact ih (ix + 1) c' | rfl
    rw [instanceCalls, writeInstances]
    by_cases hid : instanceId attributeName ix ∈ myStructNameSet
    · rw [if_pos hid, if_pos hid]
      refine (hrest c).trans ?_
      dsimp only
      generalize setMembers env _ value c = r
      obtain ⟨ret, c'⟩ := r
      cases ret <;> rfl
    · rw [if_neg hid, if_neg hid, List.singleton_append, untilFailure_cons, SessionCall.answered, SessionCall.run,
        Option.map_some, Option.bind_some]
      generalize createImmMo env.tr (createInstance dn attributeTypeName (instanceId attributeName ix)) c = r
      obtain ⟨ret, c'⟩ := r
      cases ret with
      | ok | alreadyExist =>
        refine (hrest c').trans ?_
        dsimp only
        generalize setMembers env _ value c' = r
        obtain ⟨ret, c''⟩ := r
        cases ret <;> rfl
      | _ => rfl

theorem updateReferences_eq (refs : List String) (c : Cache) :
    untilFailure .ok (SessionCall.answered env.tr) [referenceCall env.tr dn attributeName refs] c =
      some (updateReferences env dn attributeName refs c) := by
  have hcall : SessionCall.answered env.tr c (referenceCall env.tr dn attributeName refs) =
      some (updateReferences env dn attributeName refs c) := by
    unfold SessionCall.answered referenceCall SessionCall.run updateReferences
    change Option.map _ (match c.updateObjectAttribute (splitDn dn) _ _ _ with | (true, _) => _ | (false, _) => _) = _
    generalize c.updateObjectAttribute (splitDn dn) _ _ _ = r
    obtain ⟨updated, c'⟩ := r
    cases updated <;> rfl
  rw [untilFailure_cons, hcall, Option.bind_some]
  split <;> rename_i hret
  · rw [untilFailure_nil, ← hret]
  · rfl

theorem replaceInstances_eq (attributeValue : List StructValue) (structRef : List String) (c : Cache) :
    replaceInstances env dn attributeName attributeValue structRef c =
      untilFailure .ok (SessionCall.answered env.tr) (structCalls env dn attributeName attributeValue structRef) c := by
  rw [replaceInstances, structCalls]
  by_cases hnil : attributeValue = []
  · rw [if_pos hnil, if_pos hnil, untilFailure_append, ← deleteInstances_eq structRef [] c]
    cases deleteInstances env structRef [] c with
    | none => rfl
    | some r =>
      obtain ⟨ret, ids, c'⟩ := r
      cases ret <;> first | exact (updateReferences_eq [] c').symm | rfl
  · rw [if_neg hnil, if_neg hnil]
    dsimp only
    rw [untilFailure_append,
      ← deleteInstances_eq (instancesToDelete structRef attributeValue.length) (structRef.map idOf) c]
    cases hdelete : deleteInstances env (instancesToDelete structRef attributeValue.length) (structRef.map idOf) c with
    | none => rfl
    | some r =>
      obtain ⟨ret, ids, c'⟩ := r
      cases ret
      case ok =>
        obtain rfl := deleteInstances_remaining hdelete
        rw [Option.map_some, Option.bind_some, if_pos rfl, untilFailure_append, writeInstances_eq, Option.bind_some]
        dsimp only
        generalize writeInstances env dn attributeName _ _ 0 attributeValue c' = r
        obtain ⟨ret, c₁⟩ := r
        cases ret <;> first | exact (updateReferences_eq _ c₁).symm | rfl
      all_goals rfl

theorem writeStructToImm_of_references {refs : List String}
    (h : structReferences env dn attributeName c = some refs) (attributeValue : List StructValue) :
    writeStructToImm env dn attributeName attributeValue c =
      untilFailure .ok (SessionCall.answered env.tr) (structCalls env dn attributeName attributeValue refs) c := by
  unfold structReferences at h
  unfold writeStructToImm
  generalize getImmMoAttributeSimple env (splitDn dn) attributeName .string c = r at h ⊢
  obtain ⟨ret, ctp⟩ := r
  cases ret <;> cases ctp <;> cases h <;> exact replaceInstances_eq attributeValue _ c

theorem getImmMoAttributeSimple_ne (dn : List String) (attributeName : String) (attrType : MoAttributeType)
    (c : Cache) : getImmMoAttributeSimple env dn attributeName attrType c ≠ (.ok, none) := by
  unfold getImmMoAttributeSimple
  repeat' split
  all_goals nofun

theorem writeStructToImm_of_no_references (h : structReferences env dn attributeName c = none)
    (attributeValue : List StructValue) :
    ∃ ret, ret ≠ .ok ∧ writeStructToImm env dn attributeName attributeValue c = some (ret, c) := by
  have hvalue := @getImmMoAttributeSimple_ne env (splitDn dn) attributeName .string c
  unfold structReferences at h
  unfold writeStructToImm
  generalize getImmMoAttributeSimple env (splitDn dn) attributeName .string c = r at h hvalue ⊢
  obtain ⟨ret, ctp⟩ := r
  cases ret
  case ok =>
    cases ctp with
    | none => exact absurd rfl hvalue
    | some ctp => cases h
  case notExist => cases h
  all_goals
    refine ⟨_, ?_, rfl⟩
    nofun

end

section
variable {env : BridgeEnv}

/-- The calls that create the first instances of struct attributes. -/
def firstInstanceCalls (m : CreateMoCall) (as : List (String × String)) : List SessionCall :=
  as.flatMap fun a => [.create (Bridge.firstInstance m a.1 a.2),
    .update ⟨m.dn, m.bare.dn_ne_nil⟩ "" a.1 (Bridge.firstReference m a.1 a.2)]

/-- The calls that record a new object with the first instances of its struct attributes. -/
def creationCalls (env : BridgeEnv) (m : CreateMoCall) : List SessionCall :=
  .create m.bare :: firstInstanceCalls m (Bridge.structAttributes env m)

theorem createStructs_eq (m : CreateMoCall) (as : List (String × String)) (c : Cache) :
    untilFailure .ok (fun c call => SessionCall.run env.tr c call) (firstInstanceCalls m as) c =
      some (Bridge.createStructs env m as c) := by
  induction as generalizing c with
  | nil => rfl
  | cons a as ih =>
    obtain ⟨name, structName⟩ := a
    rw [firstInstanceCalls, List.flatMap_cons, List.cons_append, untilFailure_cons, SessionCall.run,
      Option.bind_some, Bridge.createStructs]
    generalize createImmMo env.tr (Bridge.firstInstance m name structName) c = r
    obtain ⟨ret, c₁⟩ := r
    cases ret
    case ok =>
      rw [if_pos rfl, List.singleton_append, untilFailure_cons, SessionCall.run]
      dsimp only
      cases c₁.updateObjectAttribute m.dn "" name (Bridge.firstReference m name structName) with
      | mk updated c₂ => cases updated <;> first | exact ih c₂ | rfl
    all_goals rfl

theorem createImmMo_eq (m : CreateMoCall) (c : Cache) : Bridge.createImmMo env m c =
    (untilFailure .ok (fun c call => SessionCall.run env.tr c call) (creationCalls env m) c).bind fun r =>
      if r.1 = .ok then Bridge.setInitialAttributes env (joinDn m.dn) m.initialAttributes .ok r.2 else some r := by
  rw [Bridge.createImmMo, creationCalls, untilFailure_cons, SessionCall.run, Option.bind_some, createImmMo]
  by_cases hgraph : (!m.keyAttributeValue.toList.all isGraph) = true
  · rw [if_pos hgraph, if_pos hgraph]
    rfl
  rw [if_neg hgraph, if_neg hgraph]
  by_cases hvalid : (!env.tr.isDnListValid m.parent m.className) = true
  · rw [if_pos hvalid, if_pos hvalid]
    rfl
  rw [if_neg hvalid, if_neg hvalid, setInitialAttributes, if_pos rfl, createStructs_eq]
  generalize Bridge.createStructs env m _ _ = r
  obtain ⟨ret, c₁⟩ := r
  cases ret <;> rfl

end

namespace Sample

/-- The small model, where `points` is an attribute of the struct `Point`, with a member. -/
def bridgeEnv : BridgeEnv where
  tr := translator
  immAttribute _ _ _ := .notExist
  getImmAttributeData _ _ := false
  getClassNameFromImm _ := none
  findAttributeTypeName _ _ := "Point"
  getStructMembers _ _ := ["x"]
  getStructMemberComDatatype _ _ _ := some .int32
  structImmClassName _ _ := "Point"
  structDatatype _ attributeName := if attributeName = "points" then some "Point" else none

end Sample

end ComSA
