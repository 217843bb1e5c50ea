import ComSA.Motransaction.StructCalls

/-!
# Committing a transaction with structs

The calls of a transaction with all the values they can have. What a struct means for the
tree of objects is what the calls mean that write it.
-/

namespace ComSA

open DeletedObjects ModifiedObjects

def ImmTree.references (t : ImmTree) (dn : List String) (attributeName : String) : List String :=
  match t dn with
  | some a => (a attributeName).map fun
    | .text s => s
    | _ => ""
  | none => []

section
variable (env : BridgeEnv)

/-! ## Setting an attribute -/

/-- The calls that set an attribute, in a tree where it holds some references. -/
def setCalls (dn : String) (t : ImmTree) : String × AttributeValue → List SessionCall
  | (attributeName, .simple v) => [.set (.ofString dn) attributeName v]
  | (attributeName, .struct values) =>
    structCalls env.toStructEnv dn attributeName values (t.references (splitDn dn) attributeName)

def setTree (dn : String) (t : ImmTree) (a : String × AttributeValue) : ImmTree :=
  (setCalls env dn t a).foldl (SessionCall.tree env.tr) t

def setStep (dn : String) (s : SessionState) (a : String × AttributeValue) : SessionState :=
  (setCalls env dn s.2 a).foldl (SessionCall.step env.tr) s

/-- A struct that is not written at all: the name is not valid, the object is deleted, or the references cannot
be read. -/
def Unwritten (dn attributeName : String) (c : Cache) : Prop :=
  env.tr.isDnListValid (splitDn dn) attributeName = false ∨ c.isDeleted (splitDn dn) = true ∨
    structReferences env.toStructEnv dn attributeName c = none

/-- Where a struct is written, the references that are read are those of the tree, and none of the calls that
write it goes wrong or fails. -/
def SetGood (imm : ImmTree) (dn : String) (s : SessionState) (a : String × AttributeValue) : Prop :=
  (∀ values, a.2 = .struct values → ∀ c, s.1 = some c → env.tr.isDnListValid (splitDn dn) a.1 = true ∧
    c.isDeleted (splitDn dn) = false ∧
    structReferences env.toStructEnv dn a.1 c = some (s.2.references (splitDn dn) a.1)) ∧
  Along (SessionCall.step env.tr) (SessionCall.Good env.tr imm) s (setCalls env dn s.2 a)

/-! ## Creating an object with structs -/

def CreateMoCall.attributesOfClass (m : CreateMoCall) : List (String × AttributeValue) :=
  m.initialAttributes.filter fun a => a.1 ∈ env.tr.comAttributeList m.dn

/-- The object has an instance for each of the structs first, and is then set to what it was given. -/
def createTree (t : ImmTree) (m : CreateMoCall) : ImmTree :=
  (m.attributesOfClass env).foldl (setTree env (joinDn m.dn)) ((creationCalls env m).foldl (SessionCall.tree env.tr) t)

/-- None of the calls goes wrong or fails that create the object. -/
def CreateGood (imm : ImmTree) (s : SessionState) (m : CreateMoCall) : Prop :=
  Along (SessionCall.step env.tr) (SessionCall.Good env.tr imm) s (creationCalls env m) ∧
  Along (setStep env (joinDn m.dn)) (SetGood env imm (joinDn m.dn))
    ((creationCalls env m).foldl (SessionCall.step env.tr) s) (m.attributesOfClass env)

/-! ## The calls -/

inductive BridgeCall where
  | create (m : CreateMoCall)
  | delete (dn : String)
  | set (dn attributeName : String) (v : AttributeValue)

namespace BridgeCall

def run (c : Cache) : BridgeCall → Option (MafReturn × Cache)
  | create m => Bridge.createImmMo env m c
  | delete dn => deleteImmMo env.tr (splitDn dn) c
  | set dn attributeName v => Bridge.setImmMoAttribute env dn attributeName v c

def tree (t : ImmTree) : BridgeCall → ImmTree
  | create m =>
    match m.withoutStructs env with
    | some m => (SessionCall.create m).tree env.tr t
    | none => createTree env t m
  | delete dn => (SessionCall.delete (.ofString dn)).tree env.tr t
  | set dn attributeName v => setTree env dn t (attributeName, v)

def step (s : SessionState) (call : BridgeCall) : SessionState :=
  match s.1.bind fun c => call.run env c with
  | none => (none, s.2)
  | some (.ok, c) => (some c, call.tree env s.2)
  | some (_, c) => (some c, s.2)

/-- The calls that do not go wrong. One with a struct is rejected before it reaches the cache, or none of the
calls that it makes goes wrong or fails. -/
def Fine (imm : ImmTree) (s : SessionState) : BridgeCall → Prop
  | create m =>
    match m.withoutStructs env with
    | some m => (SessionCall.create m).Fine env.tr imm s
    | none => m.keyAttributeValue.toList.all isGraph = true → env.tr.isDnListValid m.parent m.className = true →
      CreateGood env imm s m
  | delete dn => (SessionCall.delete (.ofString dn)).Fine env.tr imm s
  | set dn attributeName (.simple v) => (SessionCall.set (.ofString dn) attributeName v).Fine env.tr imm s
  | set dn attributeName (.struct values) => (∀ c, s.1 = some c → Unwritten env dn attributeName c) ∨
    SetGood env imm dn s (attributeName, .struct values)

end BridgeCall

end

section
variable {env : BridgeEnv} {imm : ImmTree} {c : Cache} {t : ImmTree} {dn : String} {J : Cache → Prop}

/-! ## Steps -/

theorem setImmMoAttribute_of_good (himm : imm.Closed) (hJ : KeptByCalls env.tr imm J)
    (hshows : ShowsSession env.tr imm J (some c, t))
    {a : String × AttributeValue} (hgood : SetGood env imm dn (some c, t) a) :
    ∃ c', Bridge.setImmMoAttribute env dn a.1 a.2 c = some (.ok, c') ∧
      setStep env dn (some c, t) a = (some c', setTree env dn t a) ∧
      ShowsSession env.tr imm J (some c', setTree env dn t a) := by
  obtain ⟨hstruct, halong⟩ := hgood
  obtain ⟨name, v⟩ := a
  obtain ⟨c', hrun, hstep, hshows'⟩ := untilFailure_of_good himm hJ SessionCall.answered_of_ok hshows halong
  refine ⟨c', ?_, hstep, hshows'⟩
  cases v with
  | simple v =>
    obtain ⟨c₁, hc₁⟩ := hshows.run_of_good halong.1
    rw [setCalls, untilFailure_cons_of_ok (SessionCall.answered_of_ok c _ c₁ hc₁), untilFailure_nil] at hrun
    rw [← hrun]
    exact hc₁
  | struct values =>
    obtain ⟨hvalid, hdeleted, hrefs⟩ := hstruct values rfl c rfl
    rw [Bridge.setImmMoAttribute, hvalid, hdeleted]
    exact (writeStructToImm_of_references hrefs values).trans hrun

theorem setInitialAttributes_of_good (himm : imm.Closed) (hJ : KeptByCalls env.tr imm J)
    {as : List (String × AttributeValue)}
    (hshows : ShowsSession env.tr imm J (some c, t))
    (hgood : Along (setStep env dn) (SetGood env imm dn) (some c, t)
      (as.filter fun a => a.1 ∈ env.tr.comAttributeList (splitDn dn))) :
    ∃ c', Bridge.setInitialAttributes env dn as .ok c = some (.ok, c') ∧
      ShowsSession env.tr imm J (some c',
        (as.filter fun a => a.1 ∈ env.tr.comAttributeList (splitDn dn)).foldl (setTree env dn) t) := by
  induction as generalizing c t with
  | nil => exact ⟨c, rfl, hshows⟩
  | cons a as ih =>
    obtain ⟨name, v⟩ := a
    rw [Bridge.setInitialAttributes]
    by_cases hname : name ∈ env.tr.comAttributeList (splitDn dn)
    · rw [List.filter_cons, if_pos (decide_eq_true hname)] at hgood ⊢
      obtain ⟨c₁, hset, hstep, hshows₁⟩ := setImmMoAttribute_of_good himm hJ hshows hgood.1
      have hrest := hgood.2
      rw [hstep] at hrest
      rw [if_pos hname, hset, List.foldl_cons]
      exact ih hshows₁ hrest
    · have hname' : ¬ decide (name ∈ env.tr.comAttributeList (splitDn dn)) = true := by simpa using hname
      rw [List.filter_cons, if_neg hname'] at hgood ⊢
      rw [if_neg hname]
      exact ih hshows hgood

theorem createImmMo_of_good (himm : imm.Closed) (hJ : KeptByCalls env.tr imm J)
    (hshows : ShowsSession env.tr imm J (some c, t)) {m : CreateMoCall} (hgood : CreateGood env imm (some c, t) m) :
    ∃ c', Bridge.createImmMo env m c = some (.ok, c') ∧ ShowsSession env.tr imm J (some c', createTree env t m) := by
  obtain ⟨hcreation, hsets⟩ := hgood
  obtain ⟨c₁, hrun, hstep, hshows₁⟩ := untilFailure_of_good himm hJ (fun _ _ _ h => h) hshows hcreation
  rw [hstep] at hsets
  have hclass : m.attributesOfClass env =
      m.initialAttributes.filter fun a => a.1 ∈ env.tr.comAttributeList (splitDn (joinDn m.dn)) := by
    rw [m.splitDn_joinDn, CreateMoCall.attributesOfClass]
  rw [hclass] at hsets
  obtain ⟨c', hset, hshows'⟩ := setInitialAttributes_of_good himm hJ hshows₁ hsets
  refine ⟨c', ?_, ?_⟩
  · rw [createImmMo_eq, hrun, Option.bind_some, if_pos rfl, hset]
  · rw [createTree, hclass]
    exact hshows'

theorem showsSession_createWithStructs (himm : imm.Closed) (hJ : KeptByCalls env.tr imm J)
    (hshows : ShowsSession env.tr imm J (some c, t))
    {m : CreateMoCall} (hnone : m.withoutStructs env = none) (hfine : (BridgeCall.create m).Fine env imm (some c, t)) :
    ShowsSession env.tr imm J ((BridgeCall.create m).step env (some c, t)) := by
  rw [BridgeCall.Fine, hnone] at hfine
  unfold BridgeCall.step
  rw [Option.bind_some, BridgeCall.run]
  by_cases hearly : m.keyAttributeValue.toList.all isGraph = true ∧ env.tr.isDnListValid m.parent m.className = true
  swap
  · -- The call was rejected before it wrote anything.
    rw [Bridge.createImmMo]
    cases hgraph : m.keyAttributeValue.toList.all isGraph with
    | false => exact hshows
    | true =>
      rw [Bool.eq_false_iff.mpr fun hvalid => hearly ⟨hgraph, hvalid⟩]
      exact hshows
  obtain ⟨c', hcreate, hshows'⟩ := createImmMo_of_good himm hJ hshows (hfine hearly.1 hearly.2)
  rw [hcreate]
  dsimp only [BridgeCall.tree]
  rw [hnone]
  exact hshows'

theorem showsSession_setStruct (himm : imm.Closed) (hJ : KeptByCalls env.tr imm J)
    (hshows : ShowsSession env.tr imm J (some c, t))
    {attributeName : String} {values : List StructValue}
    (hfine : (BridgeCall.set dn attributeName (.struct values)).Fine env imm (some c, t)) :
    ShowsSession env.tr imm J ((BridgeCall.set dn attributeName (.struct values)).step env (some c, t)) := by
  unfold BridgeCall.step
  rw [Option.bind_some, BridgeCall.run]
  rcases hfine with hunwritten | hgood
  · obtain ⟨ret, hret, hset⟩ : ∃ ret, ret ≠ .ok ∧
        Bridge.setImmMoAttribute env dn attributeName (.struct values) c = some (ret, c) := by
      rw [Bridge.setImmMoAttribute]
      rcases hunwritten c rfl with hvalid | hdeleted | hrefs
      · exact ⟨.failure, by decide, by rw [hvalid]; rfl⟩
      · refine ⟨.failure, by decide, ?_⟩
        rw [hdeleted]
        exact ite_self _
      · split
        · exact ⟨.failure, by decide, rfl⟩
        split
        · exact ⟨.failure, by decide, rfl⟩
        · exact writeStructToImm_of_no_references hrefs values
    rw [hset]
    cases ret <;> first | exact absurd rfl hret | exact hshows
  · obtain ⟨c', hset, -, hshows'⟩ := setImmMoAttribute_of_good himm hJ hshows hgood
    rw [hset]
    exact hshows'

theorem showsSession_bridgeStep (himm : imm.Closed) (hJ : KeptByCalls env.tr imm J) (s : SessionState)
    (call : BridgeCall)
    (h : ShowsSession env.tr imm J s) (hfine : call.Fine env imm s) :
    ShowsSession env.tr imm J (call.step env s) := by
  obtain ⟨c, hc⟩ : ∃ c, s.1 = some c := by
    obtain ⟨c, hc, -⟩ := h
    exact ⟨c, hc⟩
  obtain ⟨o, t⟩ := s
  obtain rfl : o = some c := hc
  cases call with
  | create m =>
    cases hstructs : m.withoutStructs env with
    | none => exact showsSession_createWithStructs himm hJ h hstructs hfine
    | some m' =>
      have hstep : (BridgeCall.create m).step env (some c, t) = (SessionCall.create m').step env.tr (some c, t) := by
        rw [BridgeCall.step, Option.bind_some, BridgeCall.run, createImmMo_withoutStructs hstructs, BridgeCall.tree,
          hstructs]
        rfl
      rw [BridgeCall.Fine, hstructs] at hfine
      rw [hstep]
      exact showsSession_create himm hJ h hfine
  | delete dn => exact showsSession_delete himm hJ h hfine
  | set dn attributeName v =>
    cases v with
    | simple v => exact showsSession_set himm hJ h hfine
    | struct values => exact showsSession_setStruct himm hJ h hfine

end

namespace Sample

def point (x : Int) : StructValue := [("x", ⟨.int32, [.number x]⟩)]

theorem noComma_managedElement : ∀ part ∈ ["ManagedElement=1"], ',' ∉ part.toList := by simp

def createFooWithPoint : CreateMoCall :=
  ⟨["ManagedElement=1"], noComma_managedElement, "Foo", "fooId", "2", [("points", .struct [point 1])]⟩

end Sample

section
open Sample

theorem good_create {tr : Translator} {imm : ImmTree} {s : SessionState} {m : CreateCall}
    (hgraph : m.keyAttributeValue.toList.all isGraph = true)
    (hvalid : tr.isDnListValid m.parent m.className = true) (hcreates : Creates tr s.2 m)
    (halive : ∀ c ∈ s.1, c.isDeleted m.dn = false) : (SessionCall.create m).Good tr imm s := by
  refine ⟨fun _ _ => ⟨hgraph, hvalid⟩, fun _ _ => ⟨hcreates, fun c hc hdeleted => ?_⟩⟩
  rw [halive c hc] at hdeleted
  cases hdeleted

theorem good_set {tr : Translator} {imm : ImmTree} {s : SessionState} {dn : Dn} {attributeName : String}
    {v : MoAttributeValueContainer} (hvalid : tr.isDnListValid dn.parts attributeName = true)
    (halive : ∀ c ∈ s.1, c.isDeleted dn.parts = false) (hsome : (s.2 dn.parts).isSome = true) :
    (SessionCall.set dn attributeName v).Good tr imm s :=
  ⟨fun c hc => ⟨hvalid, halive c hc⟩, fun _ _ => hsome⟩

theorem good_update {tr : Translator} {imm : ImmTree} {s : SessionState} {dn : Dn} {immName attributeName : String}
    {v : MoAttributeValueContainer} (halive : ∀ c ∈ s.1, c.isDeleted dn.parts = false)
    (hsome : (s.2 dn.parts).isSome = true) (hname : ∀ c ∈ s.1, TakesName tr c dn.parts immName v) :
    (SessionCall.update dn immName attributeName v).Good tr imm s :=
  ⟨halive, hsome, hname⟩

theorem good_creationCalls : Along (SessionCall.step bridgeEnv.tr) (SessionCall.Good bridgeEnv.tr Sample.imm)
    (.initial Sample.imm) (creationCalls bridgeEnv createFooWithPoint) := by
  refine ⟨good_create (by decide) (by decide) ⟨by decide, Or.inr (by decide), ?_, nofun⟩ (by decide),
    good_create (by decide +kernel) (by decide +kernel)
      ⟨by decide +kernel, Or.inr (by decide +kernel), ?_, nofun⟩ (by decide +kernel),
    good_update (by decide +kernel) (by decide +kernel) fun c hc => Or.inr ?_, trivial⟩
  · exact Option.isNone_iff_eq_none.mp (by decide)
  · exact Option.isNone_iff_eq_none.mp (by decide +kernel)
  · have hnew : ∀ c ∈ (((creationCalls bridgeEnv createFooWithPoint).take 2).foldl (SessionCall.step bridgeEnv.tr)
        (.initial Sample.imm)).1, ∃ o ∈ objectAt createFooWithPoint.dn c.modified, o.isNewObject = true ∧
          (∀ a ∈ o.attributes, a.2.hasDefaultValue = false) ∧
          (Bridge.firstReference createFooWithPoint "points" "Point").values ≠ [] := by decide +kernel
    exact hnew c hc

theorem good_setPoint : Along (setStep bridgeEnv (joinDn createFooWithPoint.dn))
    (SetGood bridgeEnv Sample.imm (joinDn createFooWithPoint.dn))
    ((creationCalls bridgeEnv createFooWithPoint).foldl (SessionCall.step bridgeEnv.tr) (.initial Sample.imm))
    (createFooWithPoint.attributesOfClass bridgeEnv) := by
  refine ⟨⟨fun values _ => ?_, ?_⟩, trivial⟩
  · have hreads : ∀ c ∈ ((creationCalls bridgeEnv createFooWithPoint).foldl (SessionCall.step bridgeEnv.tr)
        (.initial Sample.imm)).1, bridgeEnv.tr.isDnListValid createFooWithPoint.dn "points" = true ∧
          c.isDeleted createFooWithPoint.dn = false ∧
          structReferences bridgeEnv.toStructEnv (joinDn createFooWithPoint.dn) "points" c =
            some ["ManagedElement=1,Foo=2,Point.id=points_0"] := by decide +kernel
    exact hreads
  · refine ⟨good_set (by decide +kernel) (by decide +kernel) (by decide +kernel),
      good_update (by decide +kernel) (by decide +kernel) fun _ _ => Or.inl (by decide +kernel), trivial⟩

end

end ComSA
