import ComSA.Motransaction.LockedCalls
import ComSA.Motransaction.Resource

/-!
# Emptied attributes of created objects

IMM gives an attribute of a created object its default value again when it gets none. For attributes
that were emptied the transaction therefore modifies what it has created.
-/

namespace ComSA

open ModifiedObjects

/-! ## The copied attributes -/

structure StructQuestions where
  isStructAttribute : List String → String → Bool
  isExclusiveStruct : List String → String → Bool

/-- The value behind the first `=`. Where there is no string, what the code reads is undefined. -/
def fetchAttrValue (c : DataContainer) : Option (List Char) :=
  match c.data with
  | (_, .text attrValue) :: _ => some (attrValue.toList.dropWhile (· ≠ '=')).tail
  | _ => none

def structAttrName (c : DataContainer) : Option String :=
  match fetchAttrValue c with
  | some keyAttrValue =>
    if '_' ∈ keyAttrValue then some (String.ofList (keyAttrValue.takeWhile (· ≠ '_'))) else none
  | none => none

structure Copied where
  keyFound : Bool := false
  attributes : AttributeMap := []
  deriving DecidableEq, Repr

variable (q : StructQuestions)

def copyAttributes (o : ObjectData) (keyAttributeName : String) : AttributeMap → Copied → Copied
  | [], m => m
  | (attrName, c) :: rest, m =>
    if keyAttributeName = "id" then
      -- Where the key is not looked for, or was found before, the name of the struct is empty.
      let name := if keyAttributeName = attrName && !m.keyFound then structAttrName c
        else if m.keyFound then some "" else none
      match name with
      | none => copyAttributes o keyAttributeName rest { m with keyFound := false }
      | some name =>
        if q.isStructAttribute o.parentName name && q.isExclusiveStruct o.parentName name then
          { m with keyFound := false }
        else copyAttributes o keyAttributeName rest { m with keyFound := q.isStructAttribute o.parentName name }
    else if !m.keyFound && keyAttributeName = attrName then
      copyAttributes o keyAttributeName rest { m with keyFound := true }
    else if c.data ≠ [] then copyAttributes o keyAttributeName rest m
    else if c.hasDefaultValue = false then copyAttributes o keyAttributeName rest m
    else copyAttributes o keyAttributeName rest { m with attributes := m.attributes ++ [(attrName, c)] }

/-- An object without its key or without an emptied attribute is skipped. -/
def modifyCreated (x : ObjectOf) : Option CcbOp :=
  let m := copyAttributes q x.object (keyAttributeName x.object.immName) x.object.attributes {}
  if m.keyFound = false ∨ m.attributes = [] then none
  else some (.modify x.object.immName (attrValues m.attributes))

/-! ## The final list -/

def setFinalModifiedObjectsList (modObjList final : List CcbOp) : List CcbOp :=
  if final = [] then modObjList else final ++ modObjList

/-- `prepareListOfModifiedObjects`, with the final list that it changes. -/
def prepareFinal (creObjList : List ObjectOf) (final : List CcbOp) : List CcbOp :=
  let modObjList := creObjList.filterMap (modifyCreated q)
  if 0 < modObjList.length then setFinalModifiedObjectsList modObjList final else final

def getListOfModifiedObjects (root : ModifiedEntry) (final : List CcbOp) : List CcbOp :=
  setFinalModifiedObjectsList ((getModifiedData root).map modifyOp) final

def finalModifiedObjects (root : ModifiedEntry) : List CcbOp :=
  getListOfModifiedObjects root (prepareFinal q (getCreatedData root) [])

section
variable {q}

/-! ## The loop -/

theorem copyAttributes_id (o : ObjectData) (m : Copied) (attributes : AttributeMap) :
    (copyAttributes q o "id" attributes m).attributes = m.attributes := by
  fun_induction copyAttributes q o "id" attributes m <;> simp_all

theorem copyAttributes_of_ne {o : ObjectData} {key : String} (hkey : key ≠ "id") (attributes : AttributeMap)
    (hnodup : (attributes.map Prod.fst).Nodup) (m : Copied) (hfound : m.keyFound = true →
      key ∉ attributes.map Prod.fst) :
    copyAttributes q o key attributes m =
      ⟨m.keyFound || decide (key ∈ attributes.map Prod.fst),
        m.attributes ++ attributes.filter fun a => a.1 ≠ key ∧ a.2.data = [] ∧ a.2.hasDefaultValue = true⟩ := by
  induction attributes generalizing m with
  | nil => simp [copyAttributes]
  | cons a rest ih =>
    obtain ⟨attrName, c⟩ := a
    rw [List.map_cons, List.nodup_cons] at hnodup
    obtain ⟨hnot, hrest⟩ := hnodup
    have hfound' : m.keyFound = true → key ≠ attrName ∧ key ∉ rest.map Prod.fst := fun h => by
      simpa using hfound h
    rw [copyAttributes, if_neg hkey]
    by_cases hthis : key = attrName
    · -- The key attribute, which was not found before.
      subst hthis
      have hno : m.keyFound = false := Bool.eq_false_iff.mpr fun h => (hfound' h).1 rfl
      rw [if_pos (by simp [hno]), ih hrest _ fun _ => hnot]
      simp [hno]
    · rw [if_neg (by simp [hthis])]
      have hlater : m.keyFound = true → key ∉ rest.map Prod.fst := fun h => (hfound' h).2
      have hne : attrName ≠ key := Ne.symm hthis
      have hmem : decide (key ∈ rest.map Prod.fst) = decide (key ∈ ((attrName, c) :: rest).map Prod.fst) := by
        rw [decide_eq_decide, List.map_cons, List.mem_cons, or_iff_right hthis]
      rw [← hmem]
      split
      case isTrue hvalues =>
        rw [ih hrest m hlater]
        simp [hvalues]
      case isFalse hvalues =>
        have hempty : c.data = [] := not_not.mp hvalues
        split
        case isTrue hflag =>
          rw [ih hrest m hlater]
          simp [hflag]
        case isFalse hflag =>
          have hflag : c.hasDefaultValue = true := by simpa using hflag
          rw [ih hrest { m with attributes := m.attributes ++ [(attrName, c)] } hlater]
          simp [hne, hempty, hflag]

theorem modifyCreated_eq {x : ObjectOf} (h : SortedMap.Sorted x.object.attributes) :
    modifyCreated q x = if unsetAttributes x.object = [] then none
      else some (.modify x.object.immName (attrValues (unsetAttributes x.object))) := by
  unfold modifyCreated unsetAttributes
  by_cases hid : keyAttributeName x.object.immName = "id"
  · simp [hid, copyAttributes_id]
  · rw [copyAttributes_of_ne hid _ (SortedMap.nodup_keys h) {} nofun]
    by_cases hkey : keyAttributeName x.object.immName ∈ x.object.attributes.map Prod.fst
    · simp only [hid, hkey, false_or, not_true_eq_false, if_false, Bool.false_or, decide_true, List.nil_append,
        Bool.true_eq_false]
    · simp only [hid, hkey, false_or, not_false_eq_true, if_true, Bool.false_or, decide_false, true_or]

/-! ## The list -/

theorem setFinalModifiedObjectsList_eq (modObjList final : List CcbOp) :
    setFinalModifiedObjectsList modObjList final = final ++ modObjList := by
  unfold setFinalModifiedObjectsList
  split
  case isTrue h => rw [h, List.nil_append]
  case isFalse => rfl

theorem finalModifiedObjects_eq {root : ModifiedEntry}
    (h : ∀ x ∈ getCreatedData root, SortedMap.Sorted x.object.attributes) :
    finalModifiedObjects q root =
      prepareListOfModifiedObjects (getCreatedData root) ++ (getModifiedData root).map modifyOp := by
  have hprepare : ∀ creObjList : List ObjectOf, (∀ x ∈ creObjList, SortedMap.Sorted x.object.attributes) →
      creObjList.filterMap (modifyCreated q) = prepareListOfModifiedObjects creObjList := by
    intro creObjList hsorted
    induction creObjList with
    | nil => rfl
    | cons x rest ih =>
      have hrest := ih fun y hy => hsorted y (List.mem_cons_of_mem x hy)
      rw [List.filterMap_cons, modifyCreated_eq (hsorted x List.mem_cons_self), prepareListOfModifiedObjects,
        List.filter_cons]
      by_cases hunset : unsetAttributes x.object = []
      · rw [if_pos hunset, if_neg (by simpa using hunset)]
        exact hrest
      · rw [if_neg hunset, if_pos (by simpa using hunset), List.map_cons]
        exact congrArg _ hrest
  unfold finalModifiedObjects getListOfModifiedObjects prepareFinal
  rw [hprepare _ h]
  simp only [setFinalModifiedObjectsList_eq, List.nil_append]
  split
  case isTrue => rfl
  case isFalse hnone =>
    rw [List.length_pos_iff, not_not] at hnone
    rw [hnone]

/-! ## Preparing -/

structure Issuing (w w' : TxState) : Prop where
  cache : w'.cache = w.cache
  finalModified : w'.finalModified = w.finalModified

theorem Issuing.trans {w₁ w₂ w₃ : TxState} (h : Issuing w₁ w₂) (h' : Issuing w₂ w₃) : Issuing w₁ w₃ :=
  ⟨h'.cache.trans h.cache, h'.finalModified.trans h.finalModified⟩

theorem issuing_nextAnswer (w : TxState) : Issuing w w.nextAnswer.2 := by
  rw [nextAnswer_rest w]
  exact ⟨rfl, rfl⟩

variable {env : TxEnv}

theorem issuing_lockDn (name : String) (scope : ImmScope) (w : TxState) : Issuing w
    (lockDn env name scope w).2 := by
  have hcheck : Issuing w (checkSetAdminOwner env name scope w).2 := by
    rw [checkSetAdminOwner]
    split
    · exact ⟨rfl, rfl⟩
    split
    · exact ⟨rfl, rfl⟩
    split
    · exact ⟨rfl, rfl⟩
    have hnext := issuing_nextAnswer w
    split <;> rename_i h <;> rw [h] at hnext <;>
      exact ⟨hnext.cache, hnext.finalModified⟩
  rw [lockDn]
  split <;> rename_i h <;> rw [h] at hcheck <;> exact hcheck

theorem issuing_issue (op : CcbOp) (w : TxState) : Issuing w (issue op w).2 := by
  have hnext := issuing_nextAnswer { w with log := w.log ++ [⟨op, w.owned, w.inCcb⟩] }
  rw [issue]
  split
  · rename_i h
    rw [h] at hnext
    exact ⟨hnext.cache, hnext.finalModified⟩
  · rename_i h
    rw [h] at hnext
    dsimp only
    split <;> exact ⟨hnext.cache, hnext.finalModified⟩

theorem Issuing.onOk {w : TxState} {r : MafReturn × TxState} (h : Issuing w r.2)
    {next : TxState → MafReturn × TxState} (hnext : ∀ w', Issuing w w' → Issuing w (next w').2) :
    Issuing w (onOk r next).2 := by
  rw [ComSA.onOk]
  split
  · exact hnext r.2 h
  · exact h

theorem issuing_issueAll (ops : List CcbOp) (w : TxState) : Issuing w (issueAll env ops w).2 := by
  induction ops generalizing w with
  | nil => exact ⟨rfl, rfl⟩
  | cons op ops ih =>
    rw [issueAll]
    refine Issuing.onOk ?_ fun w₁ h₁ => Issuing.onOk (h₁.trans (issuing_issue op w₁)) fun w₂ h₂ => h₂.trans (ih w₂)
    split
    · exact ⟨rfl, rfl⟩
    · exact issuing_lockDn op.ownerName op.ownerScope w

theorem Issuing.final {w : TxState} {r : MafReturn × TxState} (h : Issuing w r.2)
    {next : TxState → MafReturn × TxState} {final : List CcbOp} (hok : (ComSA.onOk r next).1 = .ok)
    (hnext : ∀ w', Issuing w w' → (next w').1 = .ok → (next w').2.finalModified = final) :
    (ComSA.onOk r next).2.finalModified = final := by
  unfold ComSA.onOk at hok ⊢
  split
  case isTrue hr =>
    rw [if_pos hr] at hok
    exact hnext r.2 h hok
  case isFalse hr =>
    rw [if_neg hr] at hok
    exact absurd hok hr

theorem oamSAPrepare_final {w : TxState} (hok : (oamSAPrepare env w).1 = .ok)
    (hsorted : ∀ x ∈ getCreatedData w.cache.modified, SortedMap.Sorted x.object.attributes) :
    (oamSAPrepare env w).2.finalModified = if w.ccbCreated then [] else finalModifiedObjects q
    w.cache.modified := by
  unfold oamSAPrepare at hok ⊢
  dsimp only at hok ⊢
  by_cases hccb : w.ccbCreated = true
  · rw [if_pos hccb, if_pos hccb]
  rw [if_neg hccb] at hok
  rw [if_neg hccb, if_neg hccb, finalModifiedObjects_eq hsorted]
  have hnext := issuing_nextAnswer { w with finalModified := [], isCcbEmpty := false }
  generalize TxState.nextAnswer { w with finalModified := [], isCcbEmpty := false } = r at hnext hok ⊢
  obtain ⟨a, w₁⟩ := r
  cases a with
  | ok =>
    dsimp only at hok ⊢
    -- Creating and deleting leave the list as it was prepared.
    refine (issuing_issueAll _ _).final hok fun w₂ h₂ hok => ?_
    refine (issuing_issueAll _ _).final hok fun w₃ h₃ hok => ?_
    refine (issuing_issueAll _ _).final hok fun w₄ h₄ _ => ?_
    have hcache : w₃.cache = w.cache := h₃.cache.trans (h₂.cache.trans hnext.cache)
    have hfinal : w₃.finalModified = prepareListOfModifiedObjects (getCreatedData w₁.cache.modified) :=
      h₃.finalModified.trans h₂.finalModified
    change w₄.finalModified = _
    rw [h₄.finalModified, hfinal, hcache, show w₁.cache = w.cache from hnext.cache]
  | _ => exact absurd hok nofun

end

end ComSA
